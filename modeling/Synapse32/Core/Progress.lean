import Synapse32.Core.Lockstep

/-! # Every instruction of the run is executed

A run of the core stays in step with the sequential run. Where fetches, data accesses and drains
are answered in the end, instructions go on leaving EX, so that the core reaches every instruction
of the sequential run. -/

namespace Synapse32

namespace SeqRun

variable {code : Word → Word} (r : SeqRun code)

/-- The register writes of a run only grow. -/
theorem writes_mono {j k : ℕ} (h : j ≤ k) : r.writes j <+: r.writes k := by
  induction k, h using Nat.le_induction with
  | base => exact List.prefix_refl _
  | succ k _ ih =>
    rw [writes_succ]
    exact ih.trans (List.prefix_append _ _)

/-- The accesses of a run only grow. -/
theorem accesses_mono {j k : ℕ} (h : j ≤ k) : r.accesses j <+: r.accesses k := by
  induction k, h using Nat.le_induction with
  | base => exact List.prefix_refl _
  | succ k _ ih =>
    rw [accesses_succ]
    exact ih.trans (List.prefix_append _ _)

end SeqRun

namespace RiscvCpu

/-! ## Runs in step -/

/-- The pipeline is empty after reset. -/
theorem idle_start {h : Hart} (h0 : h.regs 0#5 = 0#32) : Idle (start h) where
  front := ⟨nofun, nofun, rfl, nofun, fun _ => .inl rfl, fun _ => rfl, nofun⟩
  mem := ⟨rfl, rfl, rfl, nofun⟩
  wb := rfl
  amoWritePhase := rfl
  x0 := h0

variable {code : Word → Word} {r : SeqRun code} {ins : ℕ → CpuIn}

/-- **The core before cycle `n` is in step with the run.** -/
def InStep (r : SeqRun code) (ins : ℕ → CpuIn) (n : ℕ) : Prop :=
  Sim r (runFrom (start (r.hart 0)) ins n) (ledger (start (r.hart 0)) ins n)
    (pendingFetch (start (r.hart 0)) ins n)

/-- The memory that a read of the core sees is that of the run. -/
theorem InStep.dataMemory_eq {n : ℕ} (h : InStep r ins n)
    (hrd : memRdEn (runFrom (start (r.hart 0)) ins n) = true) :
    dataMemory (r.hart 0).mem (start (r.hart 0)) ins n =
      (r.hart (ledger (start (r.hart 0)) ins n).left.length).mem := by
  -- A read is the first access of its instruction.
  have hnone : (ledger (start (r.hart 0)) ins n).inMem.toList.flatMap Entry.accesses = [] := by
    cases he : (ledger (start (r.hart 0)) ins n).inMem with
    | none => rfl
    | some e =>
      have hp : (runFrom (start (r.hart 0)) ins n).amoWritePhase = false := by
        by_contra hp
        have hp := Bool.eq_true_of_not_eq_false hp
        have hamo := h.phase.isAmoW_of_write h.mem hp
        exact Bool.false_ne_true ((amoWrite_facts hamo hp).1.symm.trans hrd)
      rw [Option.toList_some, List.flatMap_singleton]
      exact h.phase.fresh hp e he
  rw [dataMemory, accessLog_eq (idle_start r.x0), hnone, List.append_nil, h.accesses, ← r.mem_eq]

/-- An allowed timing, in one cycle. -/
theorem Interface.cycle (hi : Interface code (r.hart 0) ins) {n : ℕ} (h : InStep r ins n) :
    Cycle r (runFrom (start (r.hart 0)) ins n) (ledger (start (r.hart 0)) ins n)
      (pendingFetch (start (r.hart 0)) ins n) (ins n) where
  noFault := hi.noFault n
  grant := hi.grant n
  fetch := hi.fetch n
  data hrv hrd := by rw [memReadDataEffective, if_pos hrd, hi.data n hrv hrd, h.dataMemory_eq hrd]

variable (hpc : (r.hart 0).pc = 0x80000000#32) (hres : (r.hart 0).reserved = none)
  (hi : Interface code (r.hart 0) ins)
include hpc hres hi

/-- **The core stays in step**, whatever the timing. -/
theorem inStep (n : ℕ) : InStep r ins n := by
  induction n with
  | zero => exact sim_start hpc hres
  | succ n ih => exact Sim.next ih (hi.cycle ih)

/-- The register writes so far are those of the run's first instructions. -/
theorem writeLog_eq_writes (n : ℕ) : writeLog (start (r.hart 0)) ins (n + 1) =
    r.writes (ledger (start (r.hart 0)) ins n).left.length := by
  rw [writeLog_succ, writeLog_eq (idle_start r.x0)]
  exact (inStep hpc hres hi n).writes

/-- The accesses so far are those of the run's first instructions, and perhaps the read of an AMO
that has yet to write. -/
theorem accessLog_prefix (n : ℕ) : accessLog (start (r.hart 0)) ins n <+:
    r.accesses ((ledger (start (r.hart 0)) ins n).left.length + 1) := by
  have h := inStep hpc hres hi n
  rw [accessLog_eq (idle_start r.x0), h.accesses, SeqRun.accesses_succ]
  -- What is in MEM is the next instruction: its accesses so far begin the list of all of them.
  refine (List.prefix_append_right_inj _).mpr ?_
  cases he : (ledger (start (r.hart 0)) ins n).inMem with
  | none => exact List.nil_prefix
  | some e =>
    rw [Option.toList_some, List.flatMap_singleton]
    cases hp : (runFrom (start (r.hart 0)) ins n).amoWritePhase
    · rw [h.phase.fresh hp e he]
      exact List.nil_prefix
    · -- An AMO between its phases has made its read.
      obtain ⟨e', he', hamo, hacc⟩ := h.phase.write hp
      obtain rfl := Option.some.inj (he.symm.trans he')
      have hslot := h.slot e he
      have hmem := h.mem.slot e he
      have hans : Instr.Answers (r.instr (ledger (start (r.hart 0)) ins n).left.length)
          (r.hart (ledger (start (r.hart 0)) ins n).left.length)
          (scSuccess (runFrom (start (r.hart 0)) ins n))
          (runFrom (start (r.hart 0)) ins n).amoReadData := by
        refine ⟨fun _ => ?_, scSuccess_eq (r.exec _) (hmem.trans hslot) h.reserved⟩
        have hread : e.slot.readType = 0b010#3 := by
          rw [ExMem.readType, hamo, Bool.or_true, if_pos rfl]
        rw [h.amo hp, hmem, ← hslot, hread, hslot]
        rfl
      rw [← (Instr.agrees (r.exec _) hans).accesses, ← hslot, hacc, ExMem.accesses,
        if_pos (InstrId.of_isAmo hamo).1, ExMem.readType, hamo, Bool.or_true, if_pos rfl]
      exact List.prefix_append _ _

/-! ## Progress -/

omit hpc hres hi in
/-- Instructions that have left EX stay counted. -/
theorem position_mono {s0 : RiscvCpu} {n m : ℕ} (h : n ≤ m) :
    (ledger s0 ins n).position ≤ (ledger s0 ins m).position := by
  induction m, h using Nat.le_induction with
  | base => exact le_rfl
  | succ m _ ih =>
    rw [ledger_succ, position_next]
    omega

/-- **Fair timings.** Fetches are answered again and again, a data access is answered in the end,
and the store buffer drains for a fence in the end. -/
structure Fair (h : Hart) (ins : ℕ → CpuIn) : Prop where
  fetch : ∀ n, ∃ m ≥ n, (ins m).instrRvalidIn = true
  data : ∀ n, (memRdEn (runFrom (start h) ins n) || memWrEn (runFrom (start h) ins n)) = true →
    ∃ m ≥ n, (ins m).dataRvalidIn = true
  drain : ∀ n, fenceDrainStall (runFrom (start h) ins n) (ins n) = true →
    ∃ m ≥ n, (ins m).storeBufferEmptyIn = true

omit hpc hres hi in
/-- A held instruction that no access keeps back is a fence, and waits for the store buffer. -/
theorem Sim.fence_of_stuck {s : RiscvCpu} {l : Ledger} {pend : Option Word} {i : CpuIn}
    (h : Sim r s l pend) (hc : Cycle r s l pend i) (hno : RiscvCpu.issues s i = false)
    (hw : memWait s i = false) (hv : s.idEx.instrValid = true) :
    fenceDrainStall s i = true ∧ i.storeBufferEmptyIn = false ∧
      (RiscvCpu.next s i).idEx.instrValid = true := by
  have hfence : fenceDrainStall s i = true := by
    rw [h.issues hc, hv, Bool.true_and, exStageActive, hw] at hno
    simpa using hno
  have hhold : pipelineHold s i = true := by rw [pipelineHold, hfence, Bool.or_true, Bool.true_or]
  refine ⟨hfence, ?_, ?_⟩
  · have hne : (s.idEx.dec.instrId == .fenceI) = false := by
      rw [(h.decoded hv).1]
      exact beq_eq_false_iff_ne.mpr (not_fenceI _)
    by_contra he
    simp [fenceDrainStall, hne, he] at hfence
  · rcases front_cases s i with ⟨hj, -⟩ | ⟨-, -, -, -, hex⟩ | ⟨-, -, -, hh, -⟩ | ⟨-, hh, -⟩
    · exact absurd ((h.noJump hc hno).symm.trans hj) Bool.false_ne_true
    · rw [hex]
      exact hv
    · exact absurd (hh.symm.trans hhold) Bool.false_ne_true
    · exact absurd (hh.symm.trans hhold) Bool.false_ne_true

omit hpc hres hi in
/-- Behind an empty EX the front end moves. -/
theorem Sim.front_of_empty {s : RiscvCpu} {l : Ledger} {pend : Option Word} {i : CpuIn}
    (h : Sim r s l pend) (hc : Cycle r s l pend i) (hw : memWait s i = false)
    (hv : s.idEx.instrValid = false) :
    (RiscvCpu.next s i).idEx.instrValid = s.ifId.instructionValid ∧
      (RiscvCpu.next s i).ifId.instructionValid = !fetchWait s i ∧
      (RiscvCpu.next s i).fetchDiscard = (!i.instrRvalidIn && s.fetchDiscard) := by
  have hno : RiscvCpu.issues s i = false := by
    rw [RiscvCpu.issues, hv, Bool.false_and, Bool.false_and]
  have hj := h.noJump hc hno
  have hfence : fenceDrainStall s i = false := by rw [fenceDrainStall, hv, Bool.false_and]
  have hhold : pipelineHold s i = false := by rw [pipelineHold, h.wfiStall, hfence, hw]; rfl
  have hz : hazardStall s = false := by
    obtain ⟨-, hid, -⟩ := (h.front.exBubble hv).facts
    rw [hazardStall, loadUseDetector, hid]
    rfl
  rcases front_cases s i with ⟨hj', -⟩ | ⟨-, -, -, hh, -⟩ | ⟨-, -, -, -, hz', -⟩ |
    ⟨-, -, -, hex, hfetch⟩
  · exact absurd (hj.symm.trans hj') Bool.false_ne_true
  · exact absurd (hhold.symm.trans hh) Bool.false_ne_true
  · exact absurd (hz.symm.trans hz') Bool.false_ne_true
  · refine ⟨by rw [hex]; rfl, ?_, ?_⟩
    · rcases hfetch with ⟨hf, -, hid⟩ | ⟨hf, -, hid⟩ <;> rw [hid, hf] <;> rfl
    · change nextFetchDiscard s i = _
      rw [nextFetchDiscard, hj]
      cases i.instrRvalidIn <;> rfl

omit hpc hres hi in
/-- An access in MEM that is answered in the end leaves. -/
theorem exists_move_of_data {s0 : RiscvCpu} {n : ℕ} (hdata : ∀ j ≥ n,
    (memRdEn (runFrom s0 ins j) || memWrEn (runFrom s0 ins j)) = true →
      ∃ m ≥ j, (ins m).dataRvalidIn = true) :
    ∃ m ≥ n, memWait (runFrom s0 ins m) (ins m) = false := by
  by_contra hall
  have hall : ∀ m ≥ n, memWait (runFrom s0 ins m) (ins m) = true :=
    fun m hm => Bool.eq_true_of_not_eq_false fun hw => hall ⟨m, hm, hw⟩
  have hreq : ∀ m ≥ n, (memRdEn (runFrom s0 ins m) ||
      memWrEn (runFrom s0 ins m)) = true := by
    intro m hm
    have hw := hall m hm
    rw [memWait, Bool.and_eq_true, Bool.and_eq_true] at hw
    exact hw.1.1
  -- The first answer is to an AMO's read, and leaves it in its write phase.
  obtain ⟨m, hm, hrv⟩ := hdata n le_rfl (hreq n le_rfl)
  have hread : amoReadPhase (runFrom s0 ins m) = true := by
    by_contra hr
    have := dataRvalidIn_of_wait (hall m hm) (Bool.eq_false_of_not_eq_true hr)
    exact Bool.false_ne_true (this.symm.trans hrv)
  have hwrite : ∀ k ≥ m + 1, (runFrom s0 ins k).amoWritePhase = true ∧
      (ins k).dataRvalidIn = false := by
    have hanswer : ∀ k ≥ m + 1, (runFrom s0 ins k).amoWritePhase = true →
        (ins k).dataRvalidIn = false := by
      intro k hk hp
      refine dataRvalidIn_of_wait (hall k (by omega)) ?_
      rw [amoReadPhase, hp, Bool.not_true, Bool.and_false]
    intro k hk
    suffices hp : (runFrom s0 ins k).amoWritePhase = true from
      ⟨hp, hanswer k hk hp⟩
    induction k, hk using Nat.le_induction with
    | base =>
      rw [runFrom_succ, next_amoWritePhase, hread, hrv]
      rfl
    | succ k hk ih =>
      rw [runFrom_succ, next_amoWritePhase, hanswer k hk ih, Bool.and_false, Bool.and_false]
      exact ih
  -- So the second answer never comes.
  obtain ⟨k, hk, hrv'⟩ := hdata (m + 1) (by omega) (hreq (m + 1) (by omega))
  exact Bool.false_ne_true ((hwrite k hk).2.symm.trans hrv')

variable (hf : Fair (r.hart 0) ins)
include hf

omit hpc hres hi in
/-- An access in MEM is answered in the end. -/
theorem exists_move (n : ℕ) : ∃ m ≥ n, memWait (runFrom (start (r.hart 0)) ins m) (ins m) = false :=
  exists_move_of_data fun j _ => hf.data j

/-- **Instructions go on leaving EX.** -/
theorem exists_issue (n : ℕ) :
    ∃ m ≥ n, issues (runFrom (start (r.hart 0)) ins m) (ins m) = true := by
  by_contra hall
  have hno : ∀ m ≥ n, issues (runFrom (start (r.hart 0)) ins m) (ins m) = false :=
    fun m hm => Bool.eq_false_of_not_eq_true fun hw => hall ⟨m, hm, hw⟩
  have hsim := inStep hpc hres hi
  have hcyc := fun k => hi.cycle (hsim k)
  -- MEM empties.
  obtain ⟨m, hm, hmove⟩ := exists_move hf n
  have hinert : ∀ k ≥ m + 1, (runFrom (start (r.hart 0)) ins k).exMem.Inert := by
    have hstep : ∀ k ≥ m, memWait (runFrom (start (r.hart 0)) ins k) (ins k) = false →
        (runFrom (start (r.hart 0)) ins (k + 1)).exMem.Inert := by
      intro k hk hw
      rcases mem_cases (i := ins k) (hsim k).front with ⟨hw', -⟩ | ⟨-, hi', -⟩ | ⟨-, -, hx⟩
      · exact absurd (hw.symm.trans hw') Bool.false_ne_true
      · exact absurd ((hno k (by omega)).symm.trans hi') Bool.false_ne_true
      · exact hx
    intro k hk
    induction k, hk using Nat.le_induction with
    | base => exact hstep m le_rfl hmove
    | succ k hk ih => exact hstep k (by omega) (memWait_of_inert ih)
  have hw : ∀ k ≥ m + 1, memWait (runFrom (start (r.hart 0)) ins k) (ins k) = false :=
    fun k hk => memWait_of_inert (hinert k hk)
  -- EX empties: what it holds would be a fence, and the store buffer drains.
  have hex : ∀ k ≥ m + 1, (runFrom (start (r.hart 0)) ins k).idEx.instrValid = false := by
    intro k hk
    by_contra hv
    have hstuck : ∀ j ≥ k, (runFrom (start (r.hart 0)) ins j).idEx.instrValid = true := by
      intro j hj
      induction j, hj using Nat.le_induction with
      | base => exact Bool.eq_true_of_not_eq_false hv
      | succ j hj ih =>
        exact (Sim.fence_of_stuck (hsim j) (hcyc j) (hno j (by omega)) (hw j (by omega)) ih).2.2
    have hfence := fun j hj => Sim.fence_of_stuck (hsim j) (hcyc j) (hno j (by omega))
      (hw j (by omega)) (hstuck j hj)
    obtain ⟨j, hj, he⟩ := hf.drain k (hfence k le_rfl).1
    exact Bool.false_ne_true ((hfence j hj).2.1.symm.trans he)
  have hfront := fun k (hk : k ≥ m + 1) => Sim.front_of_empty (hsim k) (hcyc k) (hw k hk) (hex k hk)
  -- So does IF/ID, and no fetched word enters it.
  have hfetch : ∀ k ≥ m + 1, fetchWait (runFrom (start (r.hart 0)) ins k) (ins k) = true := by
    intro k hk
    obtain ⟨-, hid, -⟩ := hfront k hk
    obtain ⟨hnext, -, -⟩ := hfront (k + 1) (by omega)
    have hv := hex (k + 2) (by omega)
    rw [runFrom_succ] at hv
    rw [hnext, runFrom_succ, hid] at hv
    simpa using hv
  -- The first answer ends the discarding, and the second is used.
  obtain ⟨k, hk, hrv⟩ := hf.fetch (m + 1)
  have hdis : ∀ j ≥ k + 1, (runFrom (start (r.hart 0)) ins j).fetchDiscard = false := by
    intro j hj
    induction j, hj using Nat.le_induction with
    | base =>
      rw [runFrom_succ, (hfront k hk).2.2, hrv]
      rfl
    | succ j hj ih => rw [runFrom_succ, (hfront j (by omega)).2.2, ih, Bool.and_false]
  obtain ⟨j, hj, hrv'⟩ := hf.fetch (k + 1)
  have hwait := hfetch j (by omega)
  rw [fetchWait, fetchResponseValid, hrv', hdis j hj] at hwait
  exact Bool.false_ne_true hwait

/-- **The core reaches every instruction of the run.** -/
theorem exists_left (k : ℕ) : ∃ n, k ≤ (ledger (start (r.hart 0)) ins n).left.length := by
  have hpos : ∃ n, k + 1 ≤ (ledger (start (r.hart 0)) ins n).position := by
    induction k with
    | zero =>
      obtain ⟨m, -, hm⟩ := exists_issue hpc hres hi hf 0
      refine ⟨m + 1, ?_⟩
      rw [ledger_succ, position_next, hm, Bool.toNat_true]
      omega
    | succ k ih =>
      obtain ⟨n, hn⟩ := ih
      obtain ⟨m, hnm, hm⟩ := exists_issue hpc hres hi hf n
      refine ⟨m + 1, ?_⟩
      have hmono : (ledger (start (r.hart 0)) ins n).position ≤
          (ledger (start (r.hart 0)) ins m).position := position_mono hnm
      rw [ledger_succ, position_next, hm, Bool.toNat_true]
      omega
  obtain ⟨n, hn⟩ := hpos
  refine ⟨n, ?_⟩
  have hmem : (ledger (start (r.hart 0)) ins n).inMem.toList.length ≤ 1 := by
    cases (ledger (start (r.hart 0)) ins n).inMem <;> simp
  rw [Ledger.position] at hn
  omega

omit hi hf in
/-- **The core simulates the sequential instruction set for every memory timing.** For a program
without traps, the register writes and the data accesses are at all times those of its first
instructions, one at a time and in order. Under a fair timing every instruction of the program is
reached. So whatever one timing shows, every fair timing shows in the end. -/
theorem run_simulates (hi : Interface code (r.hart 0) ins) {ins' : ℕ → CpuIn}
    (hi' : Interface code (r.hart 0) ins') (hf' : Fair (r.hart 0) ins') :
    (∀ n, ∃ k, writeLog (start (r.hart 0)) ins n <+: r.writes k ∧
      accessLog (start (r.hart 0)) ins n <+: r.accesses k) ∧
    (∀ k, ∃ n, r.writes k <+: writeLog (start (r.hart 0)) ins' n ∧
      r.accesses k <+: accessLog (start (r.hart 0)) ins' n) ∧
    (∀ n, ∃ m,
      writeLog (start (r.hart 0)) ins n <+: writeLog (start (r.hart 0)) ins' m ∧
      accessLog (start (r.hart 0)) ins n <+: accessLog (start (r.hart 0)) ins' m) := by
  have hsafe : ∀ n, ∃ k, writeLog (start (r.hart 0)) ins n <+: r.writes k ∧
      accessLog (start (r.hart 0)) ins n <+: r.accesses k := by
    intro n
    refine ⟨(ledger (start (r.hart 0)) ins n).left.length + 1, ?_, accessLog_prefix hpc hres hi n⟩
    -- A register write comes with the cycle that ends MEM, so the next cycle's log has it.
    have hw : writeLog (start (r.hart 0)) ins n <+: writeLog (start (r.hart 0)) ins (n + 1) := by
      rw [writeLog_succ]
      exact List.prefix_append _ _
    rw [writeLog_eq_writes hpc hres hi] at hw
    exact hw.trans (r.writes_mono (Nat.le_succ _))
  have hlive : ∀ k, ∃ n, r.writes k <+: writeLog (start (r.hart 0)) ins' n ∧
      r.accesses k <+: accessLog (start (r.hart 0)) ins' n := by
    intro k
    obtain ⟨n, hn⟩ := exists_left hpc hres hi' hf' k
    refine ⟨n + 1, ?_, ?_⟩
    · rw [writeLog_eq_writes hpc hres hi']
      exact r.writes_mono hn
    · rw [accessLog_succ, accessLog_eq (idle_start r.x0), (inStep hpc hres hi' n).accesses,
        List.append_assoc]
      exact (r.accesses_mono hn).trans (List.prefix_append _ _)
  -- What one timing has done is a prefix of the program's, which the other one reaches.
  refine ⟨hsafe, hlive, fun n => ?_⟩
  obtain ⟨k, hw, ha⟩ := hsafe n
  obtain ⟨m, hw', ha'⟩ := hlive k
  exact ⟨m, hw.trans hw', ha.trans ha'⟩

end RiscvCpu

end Synapse32
