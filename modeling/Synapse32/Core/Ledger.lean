import Synapse32.Core.Flow
import Synapse32.Isa.Memory

/-! # The instructions of a run, in program order

A ledger beside the core lists the instructions that have left EX, oldest first, each with the data
accesses it completed in MEM and what it handed to write-back. The register writes, the data
accesses and the reservation of a run are then those of the ledger's instructions, each taken once
and in order. -/

namespace Synapse32

/-! ## Kinds of instruction -/

namespace InstrId

/-- A load, LR or AMO is neither a store nor an SC. -/
theorem not_store_of_isLoad {id : InstrId} (h : id.isLoad = true) :
    id.isPlainStore = false ∧ (id == scW) = false := by
  revert h
  cases id <;> decide

/-- An AMO is a load of its own kind. -/
theorem of_isAmo {id : InstrId} (h : id.isAmo = true) :
    id.isLoad = true ∧ id.isPlainLoad = false ∧ (id == lrW) = false := by
  revert h
  cases id <;> decide

end InstrId

/-! ## Data accesses -/

namespace ExMem

variable (e : ExMem)

/-- The load type of the access an instruction reads with. -/
def readType : BitVec 3 :=
  if e.instrId == .lrW || e.instrId.isAmo then 0b010#3 else MemoryUnit.loadType e.instrId

/-- The byte enables of a plain store. -/
def storeBe : BitVec 4 := MemoryUnit.writeByteEnable e.instrId e.memAddr

/-- A plain store that writes. -/
def stdStore : Bool := e.instrId.isPlainStore && e.storeBe != 0b0000#4

/-- **The accesses of an instruction**, given whether its SC succeeds and the value it reads: one
read for a load, a read and then a write for an AMO, one write for a store. -/
def accesses (sc : Bool) (v : Word) : List Access :=
  (if e.instrId.isLoad then [.read e.memAddr e.readType v] else []) ++
    if e.instrId.isAmo then
      [.write e.memAddr 0b1111#4 (AtomicLsu.newWord e.instrId v e.rs2Value)]
    else if e.instrId == .scW && sc then [.write e.memAddr 0b1111#4 e.rs2Value]
    else if e.stdStore then [.write e.memAddr e.storeBe (MemoryUnit.wrData e.instrId e.rs2Value)]
    else []

/-- **The result of an instruction**, given the same. -/
def result (sc : Bool) (v : Word) : Word :=
  if e.instrId.isLoad then v
  else if e.instrId == .scW then (if sc then 0#32 else 1#32)
  else e.execOutput

/-- A slot of MEM that holds no instruction, or a fence: it accesses nothing, makes or breaks no
reservation and names no register. -/
structure Inert : Prop where
  load : e.instrId.isLoad = false
  store : e.instrId.isPlainStore = false
  sc : (e.instrId == .scW) = false
  rd : e.rdValid = true → e.rdAddr = 0#5

end ExMem

/-- The register write of write-back. -/
def MemWb.write (w : MemWb) : List (BitVec 5 × Word) :=
  if w.wrEn && w.rdAddr != 0#5 then [(w.rdAddr, w.rdValue)] else []

/-- The register file after a sequence of writes. -/
def Registerfile.applyWrites (regs : Registerfile) (ws : List (BitVec 5 × Word)) : Registerfile :=
  ws.foldl (fun f w => Function.update f w.1 w.2) regs

/-- The write port of the register file applies write-back's write. -/
theorem Registerfile.next_eq_applyWrites (regs : Registerfile) (w : MemWb)
    (h0 : regs 0#5 = 0#32) : regs.next w.rdAddr w.wrEn w.rdValue = regs.applyWrites w.write := by
  unfold MemWb.write Registerfile.applyWrites
  funext r
  by_cases hw : w.wrEn = true ∧ w.rdAddr ≠ 0#5
  · have hc : (w.wrEn && w.rdAddr != 0#5) = true := by simp [hw]
    rw [if_pos hc]
    by_cases hr : r = w.rdAddr
    · simp [Registerfile.next, hw, hr]
    · by_cases hr0 : r = 0#5
      · subst hr0
        simp [Registerfile.next, hr, h0]
      · simp [Registerfile.next, hr, hr0]
  · have hc : ¬ (w.wrEn && w.rdAddr != 0#5) = true := by simpa using hw
    rw [if_neg hc]
    by_cases hr0 : r = 0#5
    · subst hr0
      by_cases he : w.wrEn = true
      · have : w.rdAddr = 0#5 := by simpa [he] using hw
        simp [Registerfile.next, this, h0]
      · simp [Registerfile.next, he, h0]
    · by_cases he : w.wrEn = true
      · have : w.rdAddr = 0#5 := by simpa [he] using hw
        simp [Registerfile.next, this, hr0]
      · simp [Registerfile.next, he, hr0]

/-! ## The ledger -/

/-- An instruction in MEM: what EX handed over, and the accesses it has completed. -/
structure Entry where
  slot : ExMem
  accesses : List Access

/-- An instruction that has left MEM: with a page fault, or for write-back. -/
structure Departed extends Entry where
  faulted : Bool
  scSuccess : Bool
  out : MemWb

/-- **An instruction has taken all its effects**: exactly the accesses of its kind, and its own
result for its own register. -/
def Departed.Complete (d : Departed) : Prop :=
  ∃ v, d.accesses = d.slot.accesses d.scSuccess v ∧ d.out.rdAddr = d.slot.rdAddr ∧
    d.out.wrEn = d.slot.rdValid ∧ d.out.rdValue = d.slot.result d.scSuccess v

/-- A plain word load that completes delivers the value it read. -/
theorem Departed.Complete.rdValue_of_lw {d : Departed} (h : d.Complete) (hid : d.slot.instrId = .lw)
    {a v : Word} (ha : d.accesses = [.read a 0b010#3 v]) : d.out.rdValue = v := by
  obtain ⟨w, hacc, -, -, hval⟩ := h
  have hread : d.slot.accesses d.scSuccess w = [.read d.slot.memAddr 0b010#3 w] := by
    simp [ExMem.accesses, ExMem.readType, ExMem.stdStore, hid, InstrId.isLoad, InstrId.isPlainLoad,
      InstrId.isAmo, InstrId.isPlainStore, MemoryUnit.loadType]
  rw [ha, hread] at hacc
  obtain ⟨-, rfl⟩ : a = d.slot.memAddr ∧ v = w := by simpa using hacc
  rw [hval, ExMem.result, hid]
  rfl

/-- What an instruction that leaves MEM does to the reservation. -/
def Departed.reserve (a : AtomicLsu) (d : Departed) : AtomicLsu :=
  a.next d.slot.instrId d.slot.memAddr false d.slot.stdStore d.slot.memAddr

/-- The ledger: the address of the next instruction in program order, the instructions that have
left MEM, oldest first, and the one in MEM. -/
structure Ledger where
  programPc : Word
  left : List Departed
  inMem : Option Entry

namespace RiscvCpu

/-- The data access that completes in a cycle. -/
def completedAccess (s : RiscvCpu) (i : CpuIn) : List Access :=
  if i.dataRvalidIn then
    if memRdEn s then [.read (readAddr s) (loadType s) (memReadDataEffective s i)]
    else if memWrEn s then [.write (writeAddr s) (writeByteEnable s) (wrDataOut s i)]
    else []
  else []

/-- The instruction in MEM as it leaves. -/
def depart (s : RiscvCpu) (i : CpuIn) (e : Entry) : Departed where
  slot := e.slot
  accesses := e.accesses ++ completedAccess s i
  faulted := memStagePageFaultTaken s i
  scSuccess := scSuccess s
  out := memOut s i

end RiscvCpu

open RiscvCpu

/-- The ledger after a cycle. -/
def Ledger.next (l : Ledger) (s : RiscvCpu) (i : CpuIn) : Ledger where
  programPc := nextProgramPc s i l.programPc
  left := if memWait s i then l.left else l.left ++ (l.inMem.map (depart s i)).toList
  inMem :=
    if memWait s i then
      l.inMem.map fun e => ⟨e.slot, e.accesses ++ completedAccess s i⟩
    else if issues s i then some ⟨executeOut s i, []⟩
    else none

namespace Ledger

variable {s : RiscvCpu} {i : CpuIn} {l : Ledger}

/-- The instruction in MEM while it waits. -/
theorem inMem_of_wait (h : memWait s i = true) :
    (l.next s i).inMem = l.inMem.map fun e => ⟨e.slot, e.accesses ++ completedAccess s i⟩ := by
  rw [Ledger.next, h]
  rfl

/-- The instruction in MEM once the one before has left. -/
theorem inMem_of_move (h : memWait s i = false) :
    (l.next s i).inMem = if issues s i then some ⟨executeOut s i, []⟩ else none := by
  rw [Ledger.next, h]
  rfl

/-- While MEM waits nothing leaves it. -/
theorem left_of_wait (h : memWait s i = true) : (l.next s i).left = l.left := by
  rw [Ledger.next, h]
  rfl

/-- When MEM moves on, its instruction departs. -/
theorem left_of_move (h : memWait s i = false) :
    (l.next s i).left = l.left ++ (l.inMem.map (depart s i)).toList := by
  rw [Ledger.next, h]
  rfl

end Ledger

namespace RiscvCpu

variable {s : RiscvCpu} {i : CpuIn} {l : Ledger}

/-! ## MEM's requests, from the slot alone -/

/-- The loads are the plain ones, LR and the read of an AMO. -/
theorem isLoad_eq (s : RiscvCpu) :
    s.exMem.instrId.isLoad = (s.exMem.instrId.isPlainLoad || isLrW s || isAmoW s) := rfl

/-- An inert slot asks for no access. -/
theorem memRequests_of_inert (h : s.exMem.Inert) : memRdEn s = false ∧ memWrEn s = false := by
  have hl := h.load
  rw [isLoad_eq, Bool.or_eq_false_iff, Bool.or_eq_false_iff] at hl
  obtain ⟨⟨hp, hlr⟩, ham⟩ := hl
  have hsc : isScW s = false := h.sc
  constructor
  · rw [memRdEn, atomicReadEnable, hp, hlr, ham]
    rfl
  · rw [memWrEn, atomicWriteEnable, exMemStdStoreReq, hsc, ham, h.store]
    rfl

/-- An instruction that accesses nothing does not wait. -/
theorem memWait_of_inert (h : s.exMem.Inert) : memWait s i = false := by
  obtain ⟨hr, hw⟩ := memRequests_of_inert h
  rw [memWait, hr, hw]
  rfl

/-- An instruction that accesses nothing completes no access. -/
theorem completedAccess_of_inert (h : s.exMem.Inert) : completedAccess s i = [] := by
  obtain ⟨hr, hw⟩ := memRequests_of_inert h
  simp [completedAccess, hr, hw]

/-- An inert slot leaves the reservation alone. -/
theorem atomicLsu_next_of_inert (h : s.exMem.Inert) (a : AtomicLsu) (hold : Bool) (addr : Word) :
    a.next s.exMem.instrId s.exMem.memAddr hold (exMemStdStoreReq s) addr = a := by
  have hl := h.load
  rw [isLoad_eq, Bool.or_eq_false_iff, Bool.or_eq_false_iff] at hl
  have hlr : (s.exMem.instrId == .lrW) = false := hl.1.2
  have ham : s.exMem.instrId.isAmo = false := hl.2
  have hst : exMemStdStoreReq s = false := by rw [exMemStdStoreReq, h.store, Bool.false_and]
  unfold AtomicLsu.next
  rw [hlr, ham, hst, h.sc]
  simp

/-- An inert slot writes no register. -/
theorem memOut_write_of_inert (h : s.exMem.Inert) : (memOut s i).write = [] := by
  unfold MemWb.write MemWb.wrEn memOut
  dsimp only
  cases hv : s.exMem.rdValid
  · simp
  · simp [h.rd hv]

/-! ## MEM holds the ledger's instruction -/

/-- **MEM and the ledger agree**: MEM holds the slot of the ledger's instruction, or an inert
one. -/
structure MemInv (s : RiscvCpu) (l : Ledger) : Prop where
  slot : ∀ e, l.inMem = some e → s.exMem = e.slot
  inert : l.inMem = none → s.exMem.Inert

/-- What squashes the instruction in EX does not happen while MEM waits. -/
theorem exMemFlush_of_memWait (h : memWait s i = true) : exMemFlush s i = false := by
  by_contra hf
  have hj := jSignal_of_exMemFlush (Bool.eq_true_of_not_eq_false hf)
  exact Bool.false_ne_true ((jSignal_of_memWait h).symm.trans hj)

/-- MEM keeps its instruction while it waits. -/
theorem exMem_next_of_memWait (h : memWait s i = true) : (next s i).exMem = s.exMem := by
  change s.exMem.next (executeOut s i) (exMemFlush s i) (memWait s i) = s.exMem
  rw [exMemFlush_of_memWait h, h]
  rfl

/-- **What MEM does in a cycle.** It waits; or it takes the instruction that leaves EX; or it takes
an inert slot. -/
theorem mem_cases (hf : FrontInv s l.programPc) :
    (memWait s i = true ∧ issues s i = false ∧ (next s i).exMem = s.exMem) ∨
    (memWait s i = false ∧ issues s i = true ∧ (next s i).exMem = executeOut s i) ∨
    (memWait s i = false ∧ issues s i = false ∧ (next s i).exMem.Inert) := by
  have hnext : (next s i).exMem =
      s.exMem.next (executeOut s i) (exMemFlush s i) (memWait s i) := rfl
  have hbubble : (ExMem.bubble (executeOut s i).pc).Inert := ⟨rfl, rfl, rfl, nofun⟩
  rw [hnext]
  unfold ExMem.next
  cases hw : memWait s i
  · right
    cases hx : exMemFlush s i
    · cases hi : issues s i
      · -- EX is empty, or it holds a fence back.
        refine .inr ⟨rfl, rfl, ?_⟩
        simp only [Bool.false_eq_true, if_false]
        cases hv : s.idEx.instrValid
        · -- A bubble reaches MEM as the NOP that it is.
          obtain ⟨-, hid, hrd⟩ := (hf.exBubble hv).facts
          have hex : (executeOut s i).instrId = .addi := hid
          refine ⟨?_, ?_, ?_, fun _ => hrd⟩ <;> rw [hex] <;> rfl
        · -- A fence that is held back goes on as one, but MEM does nothing for a fence.
          have hfence : fenceDrainStall s i = true := by
            simpa [issues, hv, hx, exStageActive, hw] using hi
          have hid := isFence_of_fenceDrainStall hfence
          have hrd : s.idEx.dec.rdValid = false := by
            rw [hf.exDec hv] at hid ⊢
            exact decoder_rdValid_of_fence hid
          have hid' : s.idEx.dec.instrId = .fence ∨ s.idEx.dec.instrId = .fenceI := by
            simpa [Decoder.isFence] using hid
          change (executeOut s i).instrId = .fence ∨ (executeOut s i).instrId = .fenceI at hid'
          refine ⟨?_, ?_, ?_, fun h => absurd (hrd.symm.trans h) Bool.false_ne_true⟩ <;>
            rcases hid' with h | h <;> rw [h] <;> rfl
      · exact .inl ⟨rfl, rfl, rfl⟩
    · -- A flush sends a bubble.
      have hi : issues s i = false := by rw [issues, hx, Bool.not_true, Bool.and_false]
      exact .inr ⟨rfl, hi, hbubble⟩
  · have hi : issues s i = false := by
      rw [issues, exStageActive, hw]
      simp
    rw [exMemFlush_of_memWait hw]
    exact .inl ⟨rfl, hi, rfl⟩

/-- **Step.** MEM and WB go on holding what the ledger says. -/
theorem MemInv.next (h : MemInv s l) (hf : FrontInv s l.programPc) :
    MemInv (next s i) (l.next s i) := by
  rcases mem_cases (i := i) hf with ⟨hw, hi, hx⟩ | ⟨hw, hi, hx⟩ | ⟨hw, hi, hx⟩
  · constructor
    · intro e he
      rw [Ledger.inMem_of_wait hw, Option.map_eq_some_iff] at he
      obtain ⟨e', he', rfl⟩ := he
      rw [hx]
      exact h.slot e' he'
    · intro he
      rw [Ledger.inMem_of_wait hw, Option.map_eq_none_iff] at he
      rw [hx]
      exact h.inert he
  · have hin : (l.next s i).inMem = some ⟨executeOut s i, []⟩ := by
      rw [Ledger.inMem_of_move hw, if_pos hi]
    constructor
    · intro e he
      obtain rfl := Option.some.inj (hin.symm.trans he)
      exact hx
    · exact fun he => absurd (hin.symm.trans he) (Option.some_ne_none _)
  · have hin : (l.next s i).inMem = none := by
      rw [Ledger.inMem_of_move hw, hi]
      rfl
    exact ⟨fun e he => absurd (he.symm.trans hin) (Option.some_ne_none _), fun _ => hx⟩

/-! ## The two phases of an AMO -/

/-- A page fault leaves the AMO phase set: it is taken in an AMO's write phase, or in the cycle
that answers its read. -/
def strandsAmoPhase (s : RiscvCpu) (i : CpuIn) : Bool :=
  memStagePageFaultTaken s i && isAmoW s && (s.amoWritePhase != i.dataRvalidIn)

/-- **The accesses of the instruction in MEM so far**: in the write phase an AMO's own read, else
none. -/
structure PhaseInv (s : RiscvCpu) (l : Ledger) : Prop where
  write : s.amoWritePhase = true → ∃ e, l.inMem = some e ∧ e.slot.instrId.isAmo = true ∧
    e.accesses = [.read e.slot.memAddr 0b010#3 s.amoReadData]
  fresh : s.amoWritePhase = false → ∀ e, l.inMem = some e → e.accesses = []

/-- The phase bit after a cycle. -/
theorem next_amoWritePhase (s : RiscvCpu) (i : CpuIn) :
    (next s i).amoWritePhase =
      if amoReadPhase s && i.dataRvalidIn then true
      else if s.amoWritePhase && i.dataRvalidIn then false
      else s.amoWritePhase := rfl

/-- The word that an AMO read is captured with its answer. -/
theorem next_amoReadData (s : RiscvCpu) (i : CpuIn) :
    (next s i).amoReadData =
      if amoReadPhase s && i.dataRvalidIn then memReadDataEffective s i else s.amoReadData := rfl

/-- An AMO in its read phase asks for the read alone, as a word. -/
theorem amoRead_facts (ha : isAmoW s = true) (hp : s.amoWritePhase = false) :
    memRdEn s = true ∧ memWrEn s = false ∧ amoReadPhase s = true ∧ loadType s = 0b010#3 := by
  obtain ⟨hl, -, -⟩ := InstrId.of_isAmo ha
  obtain ⟨hst, hsc⟩ := InstrId.not_store_of_isLoad hl
  have hsc : isScW s = false := hsc
  have hrd : memRdEn s = true := by simp [memRdEn, atomicReadEnable, ha, hp]
  refine ⟨hrd, ?_, ?_, ?_⟩
  · simp [memWrEn, atomicWriteEnable, exMemStdStoreReq, ha, hp, hst, hsc]
  · simp [amoReadPhase, ha, hp]
  · simp [loadType, ha]

/-- An AMO in its write phase asks for the write alone. -/
theorem amoWrite_facts (ha : isAmoW s = true) (hp : s.amoWritePhase = true) :
    memRdEn s = false ∧ memWrEn s = true ∧ amoReadPhase s = false := by
  obtain ⟨-, hpl, -⟩ := InstrId.of_isAmo ha
  refine ⟨?_, ?_, ?_⟩
  · simp [memRdEn, ha, hp, hpl]
  · simp [memWrEn, atomicWriteEnable, ha, hp]
  · simp [amoReadPhase, ha, hp]

/-- A wait outside the read phase ends with the answer. -/
theorem dataRvalidIn_of_wait (hw : memWait s i = true) (hp : amoReadPhase s = false) :
    i.dataRvalidIn = false := by
  simp only [memWait, hp, Bool.not_false, Bool.and_true, Bool.and_eq_true,
    Bool.not_eq_true'] at hw
  exact hw.1.2

/-- An access that leaves MEM without a page fault has been answered, and not in a read phase. -/
theorem answered_of_move (hw : memWait s i = false) (hf : memStagePageFaultTaken s i = false)
    (hreq : (memRdEn s || memWrEn s) = true) : i.dataRvalidIn = true ∧ amoReadPhase s = false := by
  simpa [memWait, hf, hreq] using hw

/-- Without an answer no access completes. -/
theorem completedAccess_of_not_rvalid (h : i.dataRvalidIn = false) : completedAccess s i = [] := by
  rw [completedAccess, h]
  rfl

/-- A write phase in progress is that of an AMO in MEM. -/
theorem PhaseInv.isAmoW_of_write (h : PhaseInv s l) (hm : MemInv s l)
    (hp : s.amoWritePhase = true) : isAmoW s = true := by
  obtain ⟨e, he, hamo, -⟩ := h.write hp
  rw [← hm.slot e he] at hamo
  exact hamo

/-- Without an AMO in MEM there is no write phase. -/
theorem PhaseInv.not_write_of_not_amo (h : PhaseInv s l) (hm : MemInv s l)
    (ha : isAmoW s = false) : s.amoWritePhase = false :=
  Bool.eq_false_of_not_eq_true fun hp =>
    Bool.false_ne_true (ha.symm.trans (h.isAmoW_of_write hm hp))

/-- After a move MEM's instruction is new, so only the phase bit matters. -/
theorem PhaseInv.next_of_move (hw : memWait s i = false)
    (hp : (RiscvCpu.next s i).amoWritePhase = false) :
    PhaseInv (RiscvCpu.next s i) (l.next s i) := by
  refine ⟨fun hp' => absurd (hp.symm.trans hp') Bool.false_ne_true, fun _ e he => ?_⟩
  rw [Ledger.inMem_of_move hw] at he
  split at he
  · obtain rfl := Option.some.inj he
    rfl
  · exact absurd he.symm (Option.some_ne_none _)

/-- Without an AMO in MEM the phase bit is clear and stays so. -/
theorem PhaseInv.next_of_not_amo (h : PhaseInv s l) (hm : MemInv s l) (ha : isAmoW s = false) :
    PhaseInv (RiscvCpu.next s i) (l.next s i) := by
  have hp : s.amoWritePhase = false := h.not_write_of_not_amo hm ha
  have hr : amoReadPhase s = false := by rw [amoReadPhase, ha, Bool.false_and]
  have hphase : (RiscvCpu.next s i).amoWritePhase = false := by
    rw [next_amoWritePhase, hr, hp]
    rfl
  cases hw : memWait s i
  · exact next_of_move hw hphase
  · refine ⟨fun hp' => absurd (hphase.symm.trans hp') Bool.false_ne_true, fun _ e he => ?_⟩
    rw [Ledger.inMem_of_wait hw, Option.map_eq_some_iff] at he
    obtain ⟨e', he', rfl⟩ := he
    rw [h.fresh hp e' he', completedAccess_of_not_rvalid (dataRvalidIn_of_wait hw hr)]
    rfl

/-- The read phase: the answer, if it comes, is recorded and opens the write phase. -/
theorem PhaseInv.next_of_read (h : PhaseInv s l) {e : Entry} (he : l.inMem = some e)
    (hslot : s.exMem = e.slot) (hs : strandsAmoPhase s i = false) (ha : isAmoW s = true)
    (hp : s.amoWritePhase = false) : PhaseInv (RiscvCpu.next s i) (l.next s i) := by
  have hphase := next_amoWritePhase s i
  obtain ⟨hrd, hwr, hr, hlt⟩ := amoRead_facts ha hp
  cases hw : memWait s i
  · -- The AMO can leave only with a page fault, which must not meet the answer.
    have hfault : memStagePageFaultTaken s i = true := by
      simpa [memWait, hrd, hr] using hw
    have hrv : i.dataRvalidIn = false := by
      simpa [strandsAmoPhase, hfault, ha, hp] using hs
    refine next_of_move hw ?_
    simpa [hrv, hp] using hphase
  · have hin := Ledger.inMem_of_wait (l := l) hw
    rw [he, Option.map_some, h.fresh hp e he, List.nil_append] at hin
    -- Without the answer the AMO goes on reading; with it, the read is recorded.
    cases hrv : i.dataRvalidIn
    · have hp' : (RiscvCpu.next s i).amoWritePhase = false := by simpa [hrv, hp] using hphase
      refine ⟨fun h' => absurd (hp'.symm.trans h') Bool.false_ne_true, fun _ e' he' => ?_⟩
      obtain rfl := Option.some.inj (hin.symm.trans he')
      exact completedAccess_of_not_rvalid hrv
    · have hp' : (RiscvCpu.next s i).amoWritePhase = true := by simpa [hrv, hr] using hphase
      have hacc : completedAccess s i =
          [.read s.exMem.memAddr 0b010#3 (memReadDataEffective s i)] := by
        rw [completedAccess, hrv, hrd, hlt]
        rfl
      have hdata : (RiscvCpu.next s i).amoReadData = memReadDataEffective s i := by
        rw [next_amoReadData, hr, hrv]
        rfl
      refine ⟨fun _ => ⟨_, hin, ?_, ?_⟩,
        fun h' => absurd (h'.symm.trans hp') Bool.false_ne_true⟩
      · rw [← hslot]
        exact ha
      · rw [hacc, hdata, ← hslot]

/-- The write phase: it ends with the answer. -/
theorem PhaseInv.next_of_write (h : PhaseInv s l) (hs : strandsAmoPhase s i = false)
    (ha : isAmoW s = true) (hp : s.amoWritePhase = true) :
    PhaseInv (RiscvCpu.next s i) (l.next s i) := by
  have hphase := next_amoWritePhase s i
  obtain ⟨hrd, hwr, hr⟩ := amoWrite_facts ha hp
  obtain ⟨e, he, hamo, hacc⟩ := h.write hp
  cases hw : memWait s i
  · have hrv : i.dataRvalidIn = true := by
      cases hfault : memStagePageFaultTaken s i
      · exact (answered_of_move hw hfault (by rw [hwr, Bool.or_true])).1
      · simpa [strandsAmoPhase, hfault, ha, hp] using hs
    refine next_of_move hw ?_
    simpa [hr, hrv, hp] using hphase
  · have hrv := dataRvalidIn_of_wait hw hr
    have hp' : (RiscvCpu.next s i).amoWritePhase = true := by simpa [hrv, hp] using hphase
    have hin := Ledger.inMem_of_wait (l := l) hw
    rw [he, Option.map_some, completedAccess_of_not_rvalid hrv, List.append_nil] at hin
    have hdata : (RiscvCpu.next s i).amoReadData = s.amoReadData := by
      rw [next_amoReadData, hr, Bool.false_and]
      rfl
    exact ⟨fun _ => ⟨_, hin, hamo, by rw [hdata]; exact hacc⟩,
      fun h' => absurd (h'.symm.trans hp') Bool.false_ne_true⟩

/-- **Step.** Without a stranded phase, the accesses of the instruction in MEM stay those of its
phase. -/
theorem PhaseInv.next (h : PhaseInv s l) (hm : MemInv s l) (hs : strandsAmoPhase s i = false) :
    PhaseInv (next s i) (l.next s i) := by
  cases ha : isAmoW s
  · exact h.next_of_not_amo hm ha
  have hnone : l.inMem ≠ none := by
    intro hn
    have hload := (hm.inert hn).load
    rw [isLoad_eq, ha, Bool.or_true] at hload
    exact Bool.false_ne_true hload.symm
  obtain ⟨e, he⟩ := Option.ne_none_iff_exists'.mp hnone
  cases hp : s.amoWritePhase
  · exact h.next_of_read he (hm.slot e he) hs ha hp
  · exact h.next_of_write hs ha hp

/-! ## A departure without a page fault is complete -/

/-- What an instruction that leaves MEM without a page fault hands to write-back. -/
theorem out_depart (hm : MemInv s l) {e : Entry} (he : l.inMem = some e)
    (hf : memStagePageFaultTaken s i = false) :
    (depart s i e).out.rdAddr = e.slot.rdAddr ∧ (depart s i e).out.wrEn = e.slot.rdValid ∧
      (depart s i e).out.rdValue =
        if e.slot.instrId.isLoad then amoOldWord s i else exMemForwardResult s := by
  have hid : (memOut s i).instrId = s.exMem.instrId := by simp [memOut, hf]
  rw [← hm.slot e he]
  refine ⟨rfl, ?_, ?_⟩
  · change (!memStagePageFaultTaken s i && s.exMem.rdValid) = s.exMem.rdValid
    rw [hf]
    rfl
  · change (memOut s i).rdValue = _
    rw [MemWb.rdValue, hid]
    rfl

/-- A store, an SC, or an instruction without access completes what its slot asks for. -/
theorem completedAccess_of_not_load (hl : s.exMem.instrId.isLoad = false)
    (hw : memWait s i = false) (hf : memStagePageFaultTaken s i = false) (v : Word) :
    completedAccess s i = s.exMem.accesses (scSuccess s) v := by
  have hload := hl
  rw [isLoad_eq, Bool.or_eq_false_iff, Bool.or_eq_false_iff] at hload
  obtain ⟨⟨hp, hlr⟩, ha⟩ := hload
  have hamo : s.exMem.instrId.isAmo = false := ha
  have hrd : memRdEn s = false := by rw [memRdEn, atomicReadEnable, hp, hlr, ha]; rfl
  have hwr : memWrEn s = ((isScW s && scSuccess s) || exMemStdStoreReq s) := by
    rw [memWrEn, atomicWriteEnable, ha]
    simp
  have hwrite : writeByteEnable s = (if isScW s && scSuccess s then 0b1111#4
      else s.exMem.storeBe) ∧ wrDataOut s i = (if isScW s && scSuccess s then
        s.exMem.rs2Value else MemoryUnit.wrData s.exMem.instrId s.exMem.rs2Value) := by
    rw [writeByteEnable, wrDataOut, atomicWriteEnable, ha]
    simp [exMemStoreBe, ExMem.storeBe]
  unfold ExMem.accesses
  rw [hl, hamo]
  change _ = [] ++ if isScW s && scSuccess s then _ else if exMemStdStoreReq s then _ else _
  rw [List.nil_append]
  -- An SC that succeeds, a plain store, or no access at all.
  cases hs : (isScW s && scSuccess s)
  · cases hst : exMemStdStoreReq s
    · have hnone : memWrEn s = false := by rw [hwr, hs, hst]; rfl
      simp [completedAccess, hrd, hnone]
    · have hreq : memWrEn s = true := by rw [hwr, hst, Bool.or_true]
      obtain ⟨hrv, -⟩ := answered_of_move hw hf (by rw [hreq, Bool.or_true])
      simp [completedAccess, hrv, hrd, hreq, hwrite, hs, writeAddr]
  · have hreq : memWrEn s = true := by rw [hwr, hs, Bool.true_or]
    obtain ⟨hrv, -⟩ := answered_of_move hw hf (by rw [hreq, Bool.or_true])
    simp [completedAccess, hrv, hrd, hreq, hwrite, hs, writeAddr]

/-- A load that is no AMO reads in MEM. -/
theorem memRdEn_of_load (hl : s.exMem.instrId.isLoad = true) (ha : isAmoW s = false) :
    memRdEn s = true := by
  rw [isLoad_eq, ha, Bool.or_false] at hl
  rw [memRdEn, atomicReadEnable, ha]
  simpa using hl

/-- A load or LR completes its read. -/
theorem completedAccess_of_load (hl : s.exMem.instrId.isLoad = true) (ha : isAmoW s = false)
    (hw : memWait s i = false) (hf : memStagePageFaultTaken s i = false) :
    completedAccess s i = s.exMem.accesses (scSuccess s) (memReadDataEffective s i) := by
  have hamo : s.exMem.instrId.isAmo = false := ha
  have hrd := memRdEn_of_load hl ha
  have hlt : loadType s = s.exMem.readType := by
    unfold loadType ExMem.readType isLrW isAmoW
    rfl
  obtain ⟨hst, hsc⟩ := InstrId.not_store_of_isLoad hl
  obtain ⟨hrv, -⟩ := answered_of_move hw hf (by rw [hrd, Bool.true_or])
  simp [completedAccess, hrv, hrd, hl, ExMem.accesses, hamo, hsc, ExMem.stdStore, hst, hlt,
    readAddr]

/-- An AMO leaves from its write phase, with the write answered. -/
theorem amo_of_move (ha : isAmoW s = true) (hw : memWait s i = false)
    (hf : memStagePageFaultTaken s i = false) :
    s.amoWritePhase = true ∧ completedAccess s i =
      [.write s.exMem.memAddr 0b1111#4
        (AtomicLsu.newWord s.exMem.instrId s.amoReadData s.exMem.rs2Value)] := by
  have hp : s.amoWritePhase = true := by
    by_contra hp
    obtain ⟨hrd, -, hr, -⟩ := amoRead_facts ha (Bool.eq_false_of_not_eq_true hp)
    have := (answered_of_move hw hf (by rw [hrd, Bool.true_or])).2
    exact Bool.false_ne_true (this.symm.trans hr)
  obtain ⟨hrd, hwr, -⟩ := amoWrite_facts ha hp
  obtain ⟨hrv, -⟩ := answered_of_move hw hf (by rw [hwr, Bool.or_true])
  refine ⟨hp, ?_⟩
  simp [completedAccess, hrv, hrd, hwr, writeAddr, writeByteEnable, wrDataOut, atomicWriteEnable,
    ha, amoOldWord, hp]

/-- The accesses and the result of an instruction that leaves MEM without a page fault, given the
word it has read. -/
theorem depart_eq (h : PhaseInv s l) (hm : MemInv s l) {e : Entry} (he : l.inMem = some e)
    (hw : memWait s i = false) (hf : memStagePageFaultTaken s i = false) :
    (depart s i e).accesses = e.slot.accesses (scSuccess s) (amoOldWord s i) ∧
      (depart s i e).out.rdValue = e.slot.result (scSuccess s) (amoOldWord s i) := by
  have hslot : s.exMem = e.slot := hm.slot e he
  obtain ⟨-, -, hval⟩ := out_depart hm he hf
  rw [hval, ← hslot]
  constructor
  · change e.accesses ++ completedAccess s i = _
    cases ha : isAmoW s
    · have hp : s.amoWritePhase = false := h.not_write_of_not_amo hm ha
      rw [h.fresh hp e he, List.nil_append]
      cases hl : s.exMem.instrId.isLoad
      · exact completedAccess_of_not_load hl hw hf _
      · rw [amoOldWord, hp]
        exact completedAccess_of_load hl ha hw hf
    · -- An AMO has its read behind it.
      have hamo : s.exMem.instrId.isAmo = true := ha
      obtain ⟨hl, -, -⟩ := InstrId.of_isAmo hamo
      obtain ⟨hp, hwrite⟩ := amo_of_move ha hw hf
      obtain ⟨e', he', -, hread⟩ := h.write hp
      obtain rfl := Option.some.inj (he.symm.trans he')
      have htype : s.exMem.readType = 0b010#3 := by
        rw [ExMem.readType, hamo, Bool.or_true, if_pos rfl]
      rw [hread, hwrite, ← hslot, ExMem.accesses, if_pos hl, if_pos hamo, htype, amoOldWord,
        if_pos hp]
  · unfold ExMem.result
    cases hl : s.exMem.instrId.isLoad
    · simp [exMemForwardResult, scResult, isScW]
    · rfl

/-- **An instruction that leaves MEM without a page fault has taken all its effects.** -/
theorem complete_depart (h : PhaseInv s l) (hm : MemInv s l) {e : Entry} (he : l.inMem = some e)
    (hw : memWait s i = false) (hf : memStagePageFaultTaken s i = false) :
    (depart s i e).Complete := by
  obtain ⟨hrd, hwr, -⟩ := out_depart hm he hf
  obtain ⟨hacc, hval⟩ := depart_eq h hm he hw hf
  exact ⟨amoOldWord s i, hacc, hrd, hwr, hval⟩

/-! ## Runs -/

/-- The core before cycle `n`, from any registers. -/
def runFrom (s0 : RiscvCpu) (ins : ℕ → CpuIn) (n : ℕ) : RiscvCpu := Clocked.run next s0 ins n

/-- The ledger before cycle `n`. -/
def ledger (s0 : RiscvCpu) (ins : ℕ → CpuIn) : ℕ → Ledger
  | 0 => ⟨s0.pc, [], none⟩
  | n + 1 => (ledger s0 ins n).next (runFrom s0 ins n) (ins n)

/-- The register writes of the first `n` cycles, in order. -/
def writeLog (s0 : RiscvCpu) (ins : ℕ → CpuIn) (n : ℕ) : List (BitVec 5 × Word) :=
  (List.range n).flatMap fun m => (runFrom s0 ins m).memWb.write

/-- The data accesses completed in the first `n` cycles, in order. -/
def accessLog (s0 : RiscvCpu) (ins : ℕ → CpuIn) (n : ℕ) : List Access :=
  (List.range n).flatMap fun m => completedAccess (runFrom s0 ins m) (ins m)

/-- **Registers a run may start from**: the pipeline is empty. -/
structure Idle (s0 : RiscvCpu) : Prop where
  front : FrontInv s0 s0.pc
  mem : s0.exMem.Inert
  wb : s0.memWb.write = []
  amoWritePhase : s0.amoWritePhase = false
  x0 : s0.registerFile 0#5 = 0#32

/-- After reset the pipeline is empty. -/
theorem idle_reset : Idle reset where
  front := by constructor <;> simp [reset, IdEx.bubble, Decoded.IsBubble]
  mem := ⟨rfl, rfl, rfl, nofun⟩
  wb := rfl
  amoWritePhase := rfl
  x0 := rfl

variable {s0 : RiscvCpu} {ins : ℕ → CpuIn}

/-- One more cycle of a run. -/
theorem runFrom_succ (n : ℕ) : runFrom s0 ins (n + 1) = next (runFrom s0 ins n) (ins n) := rfl

/-- One more cycle of the ledger. -/
theorem ledger_succ (n : ℕ) :
    ledger s0 ins (n + 1) = (ledger s0 ins n).next (runFrom s0 ins n) (ins n) := rfl

/-- One more cycle of register writes. -/
theorem writeLog_succ (n : ℕ) :
    writeLog s0 ins (n + 1) = writeLog s0 ins n ++ (runFrom s0 ins n).memWb.write := by
  simp [writeLog, List.range_succ]

/-- One more cycle of accesses. -/
theorem accessLog_succ (n : ℕ) :
    accessLog s0 ins (n + 1) =
      accessLog s0 ins n ++ completedAccess (runFrom s0 ins n) (ins n) := by
  simp [accessLog, List.range_succ]

/-- **Run lemma**, for the front end. -/
theorem frontInv_runFrom (h0 : Idle s0) (n : ℕ) :
    FrontInv (runFrom s0 ins n) (ledger s0 ins n).programPc := by
  induction n with
  | zero => exact h0.front
  | succ n ih => exact ih.next

/-- **Run lemma**, for MEM and WB. -/
theorem memInv_runFrom (h0 : Idle s0) (n : ℕ) :
    MemInv (runFrom s0 ins n) (ledger s0 ins n) := by
  induction n with
  | zero => exact ⟨nofun, fun _ => h0.mem⟩
  | succ n ih => exact ih.next (frontInv_runFrom h0 n)

/-- The instructions that have left MEM stay listed. -/
theorem left_mono {m n : ℕ} (h : m ≤ n) :
    (ledger s0 ins m).left <+: (ledger s0 ins n).left := by
  induction n, h using Nat.le_induction with
  | base => exact List.prefix_refl _
  | succ n _ ih =>
    refine ih.trans ?_
    rw [ledger_succ]
    cases hw : memWait (runFrom s0 ins n) (ins n)
    · rw [Ledger.left_of_move hw]
      exact List.prefix_append _ _
    · rw [Ledger.left_of_wait hw]

/-- **An instruction left MEM in some cycle**, behind those that had left before it. -/
theorem exists_depart (n : ℕ) {pre post : List Departed} {d : Departed}
    (h : (ledger s0 ins n).left = pre ++ d :: post) :
    ∃ m < n, ∃ e, (ledger s0 ins m).inMem = some e ∧ (ledger s0 ins m).left = pre ∧
      memWait (runFrom s0 ins m) (ins m) = false ∧ d = depart (runFrom s0 ins m) (ins m) e := by
  induction n generalizing post with
  | zero => exact absurd h.symm (List.append_ne_nil_of_right_ne_nil _ (List.cons_ne_nil _ _))
  | succ n ih =>
    rw [ledger_succ] at h
    cases hw : memWait (runFrom s0 ins n) (ins n)
    · rw [Ledger.left_of_move hw] at h
      cases he : (ledger s0 ins n).inMem with
      | none =>
        rw [he, Option.map_none, Option.toList_none, List.append_nil] at h
        obtain ⟨m, hm, hd⟩ := ih h
        exact ⟨m, by omega, hd⟩
      | some e =>
        rw [he, Option.map_some, Option.toList_some] at h
        -- `d` is what leaves in this cycle, or it left before.
        rcases List.eq_nil_or_concat post with rfl | ⟨post', d', rfl⟩
        · obtain ⟨hpre, hd⟩ := List.append_inj' h rfl
          exact ⟨n, by omega, e, he, hpre, hw, (List.cons.inj hd).1.symm⟩
        · have h' : (ledger s0 ins n).left ++ [depart (runFrom s0 ins n) (ins n) e] =
              (pre ++ d :: post') ++ [d'] := by simpa using h
          obtain ⟨m, hm, hd⟩ := ih (List.append_inj' h' rfl).1
          exact ⟨m, by omega, hd⟩
    · rw [Ledger.left_of_wait hw] at h
      obtain ⟨m, hm, hd⟩ := ih h
      exact ⟨m, by omega, hd⟩

/-- What is in MEM and makes one access, if any, has made none while it waits. -/
theorem accesses_of_not_amo (h0 : Idle s0) (n : ℕ) {e : Entry}
    (he : (ledger s0 ins n).inMem = some e) (ha : e.slot.instrId.isAmo = false) :
    e.accesses = [] := by
  induction n generalizing e with
  | zero => exact absurd he.symm (Option.some_ne_none _)
  | succ n ih =>
    rw [ledger_succ] at he
    cases hw : memWait (runFrom s0 ins n) (ins n)
    · rw [Ledger.inMem_of_move hw] at he
      split at he
      · obtain rfl := Option.some.inj he
        rfl
      · exact absurd he.symm (Option.some_ne_none _)
    · rw [Ledger.inMem_of_wait hw, Option.map_eq_some_iff] at he
      obtain ⟨e', he', rfl⟩ := he
      have hamo : isAmoW (runFrom s0 ins n) = false := by
        rw [isAmoW, (memInv_runFrom h0 n).slot e' he']
        exact ha
      have hr : amoReadPhase (runFrom s0 ins n) = false := by
        rw [amoReadPhase, hamo, Bool.false_and]
      change e'.accesses ++ completedAccess _ _ = []
      rw [ih he' ha, completedAccess_of_not_rvalid (dataRvalidIn_of_wait hw hr)]
      rfl

/-- The phases stay clean as long as no page fault strands one. -/
theorem phaseInv_runFrom (h0 : Idle s0) (n : ℕ)
    (hs : ∀ m < n, strandsAmoPhase (runFrom s0 ins m) (ins m) = false) :
    PhaseInv (runFrom s0 ins n) (ledger s0 ins n) := by
  induction n with
  | zero =>
    exact ⟨fun h => absurd (h0.amoWritePhase.symm.trans h) Bool.false_ne_true, fun _ => nofun⟩
  | succ n ih =>
    exact (ih fun m hm => hs m (by omega)).next (memInv_runFrom h0 n) (hs n (by omega))

/-- **Every instruction that left MEM without a page fault is complete.** -/
theorem complete_of_mem_left (h0 : Idle s0) (n : ℕ)
    (hs : ∀ m < n, strandsAmoPhase (runFrom s0 ins m) (ins m) = false) :
    ∀ d ∈ (ledger s0 ins n).left, d.faulted = false → d.Complete := by
  intro d hd hf
  obtain ⟨pre, post, hsplit⟩ := List.append_of_mem hd
  obtain ⟨m, hm, e, he, -, hw, rfl⟩ := exists_depart n hsplit
  exact complete_depart (phaseInv_runFrom h0 m fun k hk => hs k (by omega)) (memInv_runFrom h0 m)
    he hw hf

/-- **Register writes in program order**: those performed so far and the one in write-back are those
of the instructions that have left MEM, each once. -/
theorem writeLog_eq (h0 : Idle s0) (n : ℕ) :
    writeLog s0 ins n ++ (runFrom s0 ins n).memWb.write =
      (ledger s0 ins n).left.flatMap (·.out.write) := by
  induction n with
  | zero => exact h0.wb
  | succ n ih =>
    rw [writeLog_succ, ih, ledger_succ]
    have hwb : (runFrom s0 ins (n + 1)).memWb =
        MemWb.next (memOut (runFrom s0 ins n) (ins n)) (memWait (runFrom s0 ins n) (ins n)) := rfl
    rw [hwb]
    cases hw : memWait (runFrom s0 ins n) (ins n)
    · rw [Ledger.left_of_move hw, List.flatMap_append]
      congr 1
      cases he : (ledger s0 ins n).inMem
      · exact memOut_write_of_inert ((memInv_runFrom h0 n).inert he)
      · simp [MemWb.next, depart]
    · rw [Ledger.left_of_wait hw]
      simp [MemWb.next, MemWb.write, MemWb.wrEn, MemWb.bubble]

/-- **The register file is what the writes so far make of the first one.** -/
theorem registerFile_eq (h0 : Idle s0) (n : ℕ) :
    (runFrom s0 ins n).registerFile = s0.registerFile.applyWrites (writeLog s0 ins n) ∧
      (runFrom s0 ins n).registerFile 0#5 = 0#32 := by
  induction n with
  | zero => exact ⟨rfl, h0.x0⟩
  | succ n ih =>
    obtain ⟨ih, hx0⟩ := ih
    have hnext : (runFrom s0 ins (n + 1)).registerFile =
        (runFrom s0 ins n).registerFile.applyWrites (runFrom s0 ins n).memWb.write :=
      Registerfile.next_eq_applyWrites _ _ hx0
    constructor
    · rw [hnext, writeLog_succ, ih, Registerfile.applyWrites, Registerfile.applyWrites,
        Registerfile.applyWrites, List.foldl_append]
    · change Registerfile.next _ _ _ _ 0#5 = _
      unfold Registerfile.next
      split
      · rename_i h
        exact absurd h.2.2.symm h.2.1
      · rfl

/-- **Data accesses in program order**: those completed so far are those of the instructions that
have left MEM and of the one in MEM. -/
theorem accessLog_eq (h0 : Idle s0) (n : ℕ) :
    accessLog s0 ins n = (ledger s0 ins n).left.flatMap (·.accesses) ++
      (ledger s0 ins n).inMem.toList.flatMap Entry.accesses := by
  induction n with
  | zero => rfl
  | succ n ih =>
    rw [accessLog_succ, ih, ledger_succ, List.append_assoc]
    cases he : (ledger s0 ins n).inMem with
    | none =>
      have hinert := (memInv_runFrom h0 n).inert he
      have hw := memWait_of_inert (i := ins n) hinert
      rw [completedAccess_of_inert hinert, Ledger.left_of_move hw, Ledger.inMem_of_move hw, he]
      split <;> simp
    | some e =>
      cases hw : memWait (runFrom s0 ins n) (ins n)
      · rw [Ledger.left_of_move hw, Ledger.inMem_of_move hw, he]
        split <;> simp [depart]
      · rw [Ledger.left_of_wait hw, Ledger.inMem_of_wait hw, he]
        simp

/-- **The reservation is what the instructions that have left MEM make of the first one.** -/
theorem atomicLsu_eq (h0 : Idle s0) (n : ℕ) :
    (runFrom s0 ins n).atomicLsu = (ledger s0 ins n).left.foldl Departed.reserve s0.atomicLsu := by
  induction n with
  | zero => rfl
  | succ n ih =>
    have hnext : (runFrom s0 ins (n + 1)).atomicLsu =
        (runFrom s0 ins n).atomicLsu.next (runFrom s0 ins n).exMem.instrId
          (runFrom s0 ins n).exMem.memAddr (memWait (runFrom s0 ins n) (ins n))
          (exMemStdStoreReq (runFrom s0 ins n)) (runFrom s0 ins n).exMem.memAddr := rfl
    rw [hnext, ledger_succ]
    cases hw : memWait (runFrom s0 ins n) (ins n)
    · rw [Ledger.left_of_move hw, List.foldl_append, ← ih]
      cases he : (ledger s0 ins n).inMem with
      | none => exact atomicLsu_next_of_inert ((memInv_runFrom h0 n).inert he) _ _ _
      | some e =>
        have hslot := (memInv_runFrom h0 n).slot e he
        simp only [Option.map_some, Option.toList_some, List.foldl_cons, List.foldl_nil,
          Departed.reserve, depart]
        rw [← hslot]
        rfl
    · rw [Ledger.left_of_wait hw, ← ih]
      rfl

end RiscvCpu

end Synapse32
