import Synapse32.Core.Alu
import Synapse32.Core.Interrupts

/-! # Atomics

An AMO is a read and then a write of one word, split over two data accesses by `amo_write_phase`; an
SC writes only under a reservation. Both are stated over the ledger of a run, for every latency. -/

namespace Synapse32

/-! ## AMOs -/

namespace RiscvCpu

variable {s : RiscvCpu} {i : CpuIn}

/-- What the translation of a data access depends on in the core: the mode, `satp`, SUM and MXR. -/
def translation (s : RiscvCpu) : BitVec 2 × Word × Bool × Bool :=
  (dataPrivilegeMode s, s.csrFile.satp, s.csrFile.mstatus.getLsbD 18, s.csrFile.mstatus.getLsbD 19)

/-- **While an access waits, its translation stays**: no CSR changes and no flush goes out. -/
theorem translation_of_memWait (h : memWait s i = true) :
    translation (next s i) = translation s ∧ tlbFlush s i = false := by
  have ha : exStageActive s i = false := by rw [exStageActive, h]; rfl
  have hx := exMemFlush_of_memWait h
  obtain ⟨hint, hsync⟩ := quiet_of_not_exMemFlush hx
  obtain ⟨-, -, hsys⟩ := exOut_of_held ha
  have hmret : (exOut s i).mretInstruction = false := congrArg Prod.fst hsys
  have hsret : (exOut s i).sretInstruction = false := congrArg (fun p => p.2.1) hsys
  have haction : s.csrFile.action (csrIn s i) = .none := by
    unfold CsrFile.action
    rw [hsync]
    simp [csrIn, hint, hmret, hsret, ha]
  constructor
  · unfold translation dataPrivilegeMode
    rw [next_csrFile, haction]
    rfl
  · rw [tlbFlush, ha]
    rfl

end RiscvCpu

/-! ## Reservations -/

namespace Departed

/-- An LR that sets the reservation; one that is not word aligned has trapped in EX. -/
def isLr (d : Departed) : Bool :=
  d.slot.instrId == .lrW && AtomicLsu.wordAligned d.slot.memAddr

/-- What ends a reservation of `addr`: an SC, an AMO, or a store to its word. -/
def endsReservation (d : Departed) (addr : Word) : Bool :=
  d.slot.instrId == .scW || d.slot.instrId.isAmo ||
    (d.slot.stdStore && d.slot.memAddr.extractLsb' 2 30 == addr.extractLsb' 2 30)

/-- The latest LR of a list of instructions. -/
def latestLr (ds : List Departed) : Option Departed := (ds.filter isLr).getLast?

/-- The latest LR after one more instruction. -/
theorem latestLr_append (ds : List Departed) (d : Departed) :
    latestLr (ds ++ [d]) = if d.isLr then some d else latestLr ds := by
  unfold latestLr
  rw [List.filter_append]
  cases h : d.isLr
  · simp [h]
  · simp [h]

/-- The latest LR is one of the instructions. -/
theorem mem_of_latestLr {ds : List Departed} {l : Departed} (h : latestLr ds = some l) : l ∈ ds :=
  List.mem_of_mem_filter (List.mem_of_getLast? h)

/-- **What leaving MEM does to the reservation**: an LR sets it, some instructions end it, and the
others leave it alone. -/
theorem reserve_cases (a : AtomicLsu) (d : Departed) :
    (d.isLr = true ∧ reserve a d = ⟨true, d.slot.memAddr⟩) ∨
      (d.isLr = false ∧ d.endsReservation a.lrAddr = true ∧ (reserve a d).lrValid = false) ∨
      (d.isLr = false ∧ d.endsReservation a.lrAddr = false ∧ reserve a d = a) := by
  have hres : reserve a d = if d.isLr then ⟨true, d.slot.memAddr⟩
      else if d.endsReservation a.lrAddr then { a with lrValid := false } else a := rfl
  rw [hres]
  cases d.isLr
  · cases d.endsReservation a.lrAddr
    · exact .inr (.inr ⟨rfl, rfl, rfl⟩)
    · exact .inr (.inl ⟨rfl, rfl, rfl⟩)
  · exact .inl ⟨rfl, rfl⟩

/-- **A reservation that stands** was set by the latest LR, and nothing has ended it since. -/
theorem reserve_foldl {a : AtomicLsu} (h0 : a.lrValid = false) {ds : List Departed}
    (h : (ds.foldl reserve a).lrValid = true) :
    ∃ pre l post, ds = pre ++ l :: post ∧ latestLr ds = some l ∧ l.slot.instrId = .lrW ∧
      l.slot.memAddr = (ds.foldl reserve a).lrAddr ∧
      ∀ d ∈ post, d.endsReservation l.slot.memAddr = false := by
  induction ds using List.reverseRecOn with
  | nil => exact absurd (h0.symm.trans h) Bool.false_ne_true
  | append_singleton ds d ih =>
    -- What has left latest decides, so the induction takes it off the end.
    have hfold : (ds ++ [d]).foldl reserve a = reserve (ds.foldl reserve a) d := by simp
    rw [hfold] at h ⊢
    rw [latestLr_append]
    rcases reserve_cases (ds.foldl reserve a) d with ⟨hlr, hd⟩ | ⟨-, -, hd⟩ | ⟨hlr, hends, hd⟩
    · -- `d` is itself the LR that set it.
      rw [hd, if_pos hlr]
      have hid : d.slot.instrId = .lrW := by
        rw [isLr, Bool.and_eq_true, beq_iff_eq] at hlr
        exact hlr.1
      exact ⟨ds, d, [], rfl, rfl, hid, rfl, fun _ hx => absurd hx List.not_mem_nil⟩
    · exact absurd (hd.symm.trans h) Bool.false_ne_true
    · -- The reservation is the older one, and `d` has not ended it.
      rw [hd] at h ⊢
      rw [hlr, if_neg Bool.false_ne_true]
      obtain ⟨pre, l, post, hds, hlast, hid, haddr, hpost⟩ := ih h
      refine ⟨pre, l, post ++ [d], by rw [hds]; simp, hlast, hid, haddr, ?_⟩
      intro x hx
      rcases List.mem_append.mp hx with hx | hx
      · exact hpost x hx
      · obtain rfl := List.mem_singleton.mp hx
        rw [haddr]
        exact hends

/-- **A live reservation** for `d` behind the instructions `pre`: an LR of the same address has
retired, and since then no SC, no AMO and no store to its word has completed. -/
def LiveReservation (pre : List Departed) (d : Departed) : Prop :=
  ∃ older l younger, pre = older ++ l :: younger ∧ l.slot.instrId = .lrW ∧ l.faulted = false ∧
    l.slot.memAddr = d.slot.memAddr ∧
    ∀ x ∈ younger, x.faulted = false → x.endsReservation d.slot.memAddr = false

end Departed

namespace RiscvCpu

/-- A retired SC, one that succeeded or one that failed. -/
def RetiredSc (d : Departed) (success : Bool) : Prop :=
  d.slot.instrId = .scW ∧ d.faulted = false ∧ d.scSuccess = success

/-- **SCs up to cycle `n`.** One that succeeds has a live reservation, makes one write and returns
0; one that fails makes none and returns 1; and while an access waits the reservation stays. -/
structure ScReserved (ins : ℕ → CpuIn) (n : ℕ) : Prop where
  live : ∀ pre d post, (ledger reset ins n).left = pre ++ d :: post → RetiredSc d true →
    d.LiveReservation pre
  succeeds : ∀ d ∈ (ledger reset ins n).left, RetiredSc d true →
    d.accesses = [.write d.slot.memAddr 0b1111#4 d.slot.rs2Value] ∧
      d.out.rdAddr = d.slot.rdAddr ∧ d.out.wrEn = d.slot.rdValid ∧ d.out.rdValue = 0#32
  fails : ∀ d ∈ (ledger reset ins n).left, RetiredSc d false →
    d.accesses = [] ∧
      d.out.rdAddr = d.slot.rdAddr ∧ d.out.wrEn = d.slot.rdValid ∧ d.out.rdValue = 1#32
  wait : ∀ m < n, memWait (run ins m) (ins m) = true →
    (run ins (m + 1)).atomicLsu = (run ins m).atomicLsu

/-- What a retired SC has done, whatever the run did before it. -/
theorem effects_of_retiredSc {ins : ℕ → CpuIn} {n : ℕ} {success : Bool} {d : Departed}
    (hd : d ∈ (ledger reset ins n).left) (h : RetiredSc d success) :
    d.accesses = d.slot.accesses success 0#32 ∧ d.out.rdAddr = d.slot.rdAddr ∧
      d.out.wrEn = d.slot.rdValid ∧ d.out.rdValue = if success then 0#32 else 1#32 := by
  obtain ⟨hid, hf, hsc⟩ := h
  obtain ⟨pre, post, hsplit⟩ := List.append_of_mem hd
  obtain ⟨m, -, e, he, -, hw, rfl⟩ := exists_depart n hsplit
  have hf : memStagePageFaultTaken (runFrom reset ins m) (ins m) = false := hf
  have hm : MemInv (runFrom reset ins m) (ledger reset ins m) := memInv_runFrom idle_reset m
  have hslot : (runFrom reset ins m).exMem = e.slot := hm.slot e he
  have hid : (runFrom reset ins m).exMem.instrId = .scW := by rw [hslot]; exact hid
  have hl : (runFrom reset ins m).exMem.instrId.isLoad = false := by rw [hid]; rfl
  have hamo : e.slot.instrId.isAmo = false := by rw [← hslot, hid]; rfl
  obtain ⟨hrd, hwr, hval⟩ := out_depart hm he hf
  refine ⟨?_, hrd, hwr, ?_⟩
  · change e.accesses ++ completedAccess _ _ = e.slot.accesses success 0#32
    rw [accesses_of_not_amo idle_reset m he hamo, completedAccess_of_not_load hl hw hf 0#32, hslot,
      ← hsc]
    rfl
  · rw [hval, ← hslot, hl, if_neg Bool.false_ne_true, exMemForwardResult, isScW, hid,
      if_pos (beq_self_eq_true _), scResult, ← hsc]
    rfl

/-- **The latest LR decides.** An SC that succeeds has the reservation of the latest LR before it,
so if that LR has not page-faulted the reservation is live. -/
theorem liveReservation_of_latestLr {ins : ℕ → CpuIn} {n : ℕ} {pre post : List Departed}
    {d : Departed} (hsplit : (ledger reset ins n).left = pre ++ d :: post) (h : RetiredSc d true)
    (hlr : ∀ l, Departed.latestLr pre = some l → l.faulted = false) : d.LiveReservation pre := by
  obtain ⟨-, -, hsc⟩ := h
  obtain ⟨m, -, e, he, hpre, -, rfl⟩ := exists_depart n hsplit
  have hslot : (runFrom reset ins m).exMem = e.slot := (memInv_runFrom idle_reset m).slot e he
  have hres : (runFrom reset ins m).atomicLsu = _ := atomicLsu_eq idle_reset m
  rw [hpre] at hres
  have hsuccess : scSuccess (runFrom reset ins m) = true := hsc
  simp only [scSuccess, AtomicLsu.scSuccess, Bool.and_eq_true, beq_iff_eq] at hsuccess
  obtain ⟨⟨-, hvalid⟩, haddr⟩ := hsuccess
  rw [hres] at hvalid haddr
  obtain ⟨older, l, younger, hds, hlast, hid, hl, hnone⟩ := Departed.reserve_foldl rfl hvalid
  have hsame : l.slot.memAddr = e.slot.memAddr := hl.trans (haddr.trans (congrArg _ hslot))
  refine ⟨older, l, younger, hds, hid, hlr l hlast, hsame, fun x hx _ => ?_⟩
  rw [← hnone x hx, hsame]
  rfl

/-- **SCs over runs.** In a run in which no SC succeeds behind a latest LR that took a page fault,
every SC that succeeds has a live reservation. -/
theorem run_scReserved (ins : ℕ → CpuIn) (n : ℕ)
    (h : ∀ pre d post, (ledger reset ins n).left = pre ++ d :: post → RetiredSc d true →
      ∀ l, Departed.latestLr pre = some l → l.faulted = false) : ScReserved ins n := by
  constructor
  case live =>
    intro pre d post hsplit hd
    exact liveReservation_of_latestLr hsplit hd (h pre d post hsplit hd)
  case succeeds =>
    intro d hd hsc
    obtain ⟨hacc, hrd, hwr, hval⟩ := effects_of_retiredSc hd hsc
    refine ⟨?_, hrd, hwr, hval⟩
    rw [hacc, ExMem.accesses, hsc.1]
    rfl
  case fails =>
    intro d hd hsc
    obtain ⟨hacc, hrd, hwr, hval⟩ := effects_of_retiredSc hd hsc
    refine ⟨?_, hrd, hwr, hval⟩
    have hst : d.slot.stdStore = false := by rw [ExMem.stdStore, hsc.1]; rfl
    rw [hacc, ExMem.accesses, hsc.1, hst]
    rfl
  case wait =>
    intro m _ hw
    change AtomicLsu.next _ _ _ (memWait (run ins m) (ins m)) _ _ = _
    rw [hw]
    rfl

/-- The words of a run that sets `mstatus.MPRV` and `satp.MODE` and makes an LR, with an SC of the
same address behind it, in its trap handler or after it. -/
def lrScWords : List Word :=
  [0x000200B7#32, 0x30009073#32,                -- lui x1, 0x20; csrw mstatus, x1
    0x80000137#32, 0x18011073#32,
    0x80000137#32, 0x18011073#32,               -- lui x2, 0x80000; csrw satp, x2
    0x100021AF#32, nopInstr, 0x100021AF#32,     -- lr.w x3, (x0)
    nopInstr, nopInstr, nopInstr,
    0x180022AF#32]                              -- sc.w x5, x0, (x0)

/-- The inputs of that run: the LR answers in cycle 11, or page-faults if `fault` says so, and the
SC answers in cycle 15. -/
def lrSc (fault : Bool) (n : ℕ) : CpuIn :=
  { quietFetch (lrScWords.getD n nopInstr) with
    loadPageFaultIn := fault && n == 11
    dataRvalidIn := (!fault && n == 11) || n == 15 }

/-- Without the page fault the SC of cycle 15 has the reservation of the LR. -/
theorem run_scReserved_lrSc :
    scSuccess (run (lrSc false) 15) = true ∧ ScReserved (lrSc false) 16 := by
  refine ⟨by decide +kernel, run_scReserved (lrSc false) 16 ?_⟩
  have hall : ((ledger reset (lrSc false) 16).left.all fun d => !d.faulted) = true := by
    decide +kernel
  intro pre d post hsplit _ l hl
  have hmem : l ∈ (ledger reset (lrSc false) 16).left := by
    rw [hsplit]
    exact List.mem_append_left _ (Departed.mem_of_latestLr hl)
  simpa using List.all_eq_true.mp hall l hmem

/-- **An LR that page-faults leaves a reservation.** The SC in the handler succeeds and writes,
with no LR retired. -/
theorem run_lrFault :
    dataMmuEnable (run (lrSc true) 11) = true ∧
      memStagePageFaultTaken (run (lrSc true) 11) (lrSc true 11) = true ∧
      scSuccess (run (lrSc true) 15) = true ∧
      completedAccess (run (lrSc true) 15) (lrSc true 15) = [.write 0#32 0b1111#4 0#32] ∧
      ¬ ScReserved (lrSc true) 16 := by
  refine ⟨by decide +kernel, by decide +kernel, by decide +kernel, by decide +kernel, fun h => ?_⟩
  -- The SC is the sixth instruction, and the only LR before it has page-faulted.
  have hsc : ((ledger reset (lrSc true) 16).left[5]?.map fun d =>
      (d.slot.instrId, d.faulted, d.scSuccess)) = some (.scW, false, true) := by decide +kernel
  have hlr : (((ledger reset (lrSc true) 16).left.take 5).all fun d =>
      d.slot.instrId != .lrW || d.faulted) = true := by decide +kernel
  obtain ⟨d, hd, hfacts⟩ := Option.map_eq_some_iff.mp hsc
  obtain ⟨hlt, hget⟩ := List.getElem?_eq_some_iff.mp hd
  have hsplit := List.take_append_drop 5 (ledger reset (lrSc true) 16).left
  rw [List.drop_eq_getElem_cons hlt, hget] at hsplit
  simp only [Prod.mk.injEq] at hfacts
  obtain ⟨older, l, younger, hpre, hid, hf, -, -⟩ := h.live _ d _ hsplit.symm hfacts
  have hl : l ∈ (ledger reset (lrSc true) 16).left.take 5 := by
    rw [hpre]
    exact List.mem_append_right _ (List.mem_cons_self ..)
  have := List.all_eq_true.mp hlr l hl
  rw [hid, hf] at this
  exact Bool.false_ne_true this

end RiscvCpu

end Synapse32
