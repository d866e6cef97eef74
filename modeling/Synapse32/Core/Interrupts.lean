import Synapse32.Core.Ledger

/-! # Precise interrupts

In the cycle that takes an interrupt, the PC it records is that of the oldest instruction that has
not left EX. What is older finishes in this and the next cycle; what is younger is dropped without
a trace, fetches in flight included. -/

namespace Synapse32

namespace RiscvCpu

variable {s : RiscvCpu} {i : CpuIn}

/-! ## CSR actions -/

/-- The CSR action of the instruction that leaves EX. -/
def csrEffect (s : RiscvCpu) (i : CpuIn) : CsrAction :=
  if (exOut s i).mretInstruction then .mret
  else if (exOut s i).sretInstruction then .sret
  else if csrWriteEnable s i && CsrFile.csrValid (csrAddr s) then
    .write (csrAddr s) (ExecutionUnit.csrWriteData (exIn s i))
  else .none

/-- Without a squash the CSR file sees no exception and no interrupt. -/
theorem quiet_of_not_exMemFlush (h : exMemFlush s i = false) :
    interruptTakenQualified s i = false ∧ CsrFile.synchronousException (csrIn s i) = false := by
  simp only [exMemFlush, Bool.or_eq_false_iff] at h
  obtain ⟨⟨⟨hm, hf⟩, hs⟩, hint⟩ := h
  have hls : memStageLoadPageFault s i = false ∧ memStageStorePageFault s i = false := by
    simpa [memStagePageFaultTaken] using hm
  simp only [synchronousExceptionTaken, Bool.or_eq_false_iff] at hs
  refine ⟨hint, ?_⟩
  simp [CsrFile.synchronousException, csrIn, hls, hf, hs]

/-- **An instruction acts on the CSR file in the cycle it leaves EX.** -/
theorem action_of_issues (h : issues s i = true) :
    s.csrFile.action (csrIn s i) = csrEffect s i := by
  simp only [issues, Bool.and_eq_true, Bool.not_eq_true'] at h
  obtain ⟨⟨-, ha⟩, hx⟩ := h
  obtain ⟨hint, hsync⟩ := quiet_of_not_exMemFlush hx
  unfold CsrFile.action csrEffect
  rw [hsync]
  simp [csrIn, hint, ha]

/-- **In any other cycle only a trap acts on the CSR file.** -/
theorem action_of_not_issues {programPc : Word} (hf : FrontInv s programPc)
    (h : issues s i = false) (hx : exMemFlush s i = false) :
    s.csrFile.action (csrIn s i) = .none := by
  obtain ⟨hint, hsync⟩ := quiet_of_not_exMemFlush hx
  have hquiet : (exOut s i).system = (false, false, false) ∧
      (csrWriteEnable s i && exStageActive s i) = false := by
    cases ha : exStageActive s i
    · exact ⟨(exOut_of_held ha).2.2, Bool.and_false _⟩
    · have hv : s.idEx.instrValid = false := by simpa [issues, ha, hx] using h
      obtain ⟨-, hid, -⟩ := (hf.exBubble hv).facts
      refine ⟨(hf.jumpSignal_of_bubble hv hint).2.2, ?_⟩
      have hid : (exIn s i).instrId = .addi := hid
      unfold csrWriteEnable ExecutionUnit.csrWriteEnable ExecutionUnit.csrExecInst csrExec
      rw [hid]
      rfl
  have hmret : (exOut s i).mretInstruction = false := congrArg Prod.fst hquiet.1
  have hsret : (exOut s i).sretInstruction = false := congrArg (fun p => p.2.1) hquiet.1
  unfold CsrFile.action
  rw [hsync]
  simp [csrIn, hint, hmret, hsret, hquiet.2]

/-! ## The cycle of an interrupt -/

/-- An interrupt lets MEM's instruction leave without a page fault and squashes the one in EX. -/
theorem interrupt_facts (h : interruptTakenQualified s i = true) :
    memWait s i = false ∧ memStagePageFaultTaken s i = false ∧ issues s i = false ∧
      jSignal s i = true ∧ exMemFlush s i = true ∧ jump s i = interruptVector s := by
  have ha := exStageActive_of_interrupt h
  have hout := exOut_of_interrupt h
  simp only [exStageActive, Bool.and_eq_true, Bool.not_eq_true'] at ha
  have hnm : memStagePageFaultTaken s i = false ∧ instrStagePageFaultTaken s i = false := by
    simp only [interruptTakenQualified, Bool.and_eq_true, Bool.not_eq_true'] at h
    exact ⟨h.1.2, h.2⟩
  have hx : exMemFlush s i = true := by rw [exMemFlush, h, Bool.or_true]
  refine ⟨ha.1, hnm.1, ?_, ?_, hx, ?_⟩
  · rw [issues, hx, Bool.not_true, Bool.and_false]
  · simp [jSignal, hout, ExecutionUnit.redirect]
  · rw [jump, hnm.1, hnm.2, hout]
    rfl

/-- A fetch that is still out after a redirect is one to discard. -/
theorem fetchDiscard_of_jSignal (h : jSignal s i = true)
    (ho : (next s i).fetchOutstanding = true) : (next s i).fetchDiscard = true := by
  have ho : nextFetchOutstanding s i = true := ho
  change nextFetchDiscard s i = true
  unfold nextFetchOutstanding at ho
  unfold nextFetchDiscard
  rw [h]
  cases hr : i.instrRvalidIn
  · cases hg : i.instrGntIn
    · have hout : s.fetchOutstanding = true := by simpa [hr, hg] using ho
      simp [hout]
    · simp
  · simp [hr] at ho

/-- **An interrupt is precise.** `P` is the address of the next instruction in program order. The
instructions before it have left EX, each at its own address; the last of them leaves MEM in this
cycle; and the data accesses, the register writes, the reservation and the CSR actions of the run
are theirs, each taken once and in order. The instruction at `P` has not left EX, nothing of it or
of what was fetched behind it stays in the pipeline, and program order goes on at the vector. -/
structure PreciseInterrupt (ins : ℕ → CpuIn) (n : ℕ) : Prop where
  epc : (interruptTrap (run ins n)).epc = (ledger reset ins n).programPc
  commits : Commits (run ins n) (ins n) ⟨interruptTrap (run ins n), interruptVector (run ins n)⟩
  order : ∀ m, issues (run ins m) (ins m) = true →
    (executeOut (run ins m) (ins m)).pc = (ledger reset ins m).programPc
  last : (ledger reset ins (n + 1)).inMem = none ∧
    ∃ ds, (ledger reset ins (n + 1)).left = (ledger reset ins n).left ++ ds ∧
      ds.map (·.slot) = (ledger reset ins n).inMem.toList.map (·.slot) ∧
      ∀ d ∈ ds, d.faulted = false
  complete : ∀ d ∈ (ledger reset ins (n + 1)).left, d.faulted = false → d.Complete
  accesses : accessLog reset ins (n + 1) =
    (ledger reset ins (n + 1)).left.flatMap (·.accesses)
  writes : writeLog reset ins (n + 2) = (ledger reset ins (n + 1)).left.flatMap (·.out.write)
  registerFile : (run ins (n + 2)).registerFile =
    reset.registerFile.applyWrites (writeLog reset ins (n + 2))
  reservation : (run ins (n + 1)).atomicLsu =
    (ledger reset ins (n + 1)).left.foldl Departed.reserve reset.atomicLsu
  csr : ∀ m, (issues (run ins m) (ins m) = true →
      (run ins m).csrFile.action (csrIn (run ins m) (ins m)) = csrEffect (run ins m) (ins m)) ∧
    (issues (run ins m) (ins m) = false → redirect? (run ins m) (ins m) = none →
      (run ins m).csrFile.action (csrIn (run ins m) (ins m)) = .none)
  dropped : issues (run ins n) (ins n) = false ∧
    (run ins (n + 1)).idEx.instrValid = false ∧ (run ins (n + 1)).ifId.instructionValid = false ∧
    ((run ins (n + 1)).fetchOutstanding = true → (run ins (n + 1)).fetchDiscard = true)
  resume : (ledger reset ins (n + 1)).programPc = interruptVector (run ins n)

/-- **Precise interrupts over runs.** In every run in which no page fault has stranded the phase of
an AMO, whatever the latencies, every interrupt is precise. -/
theorem run_preciseInterrupt (ins : ℕ → CpuIn) (n : ℕ)
    (hs : ∀ m < n, strandsAmoPhase (run ins m) (ins m) = false)
    (h : interruptTakenQualified (run ins n) (ins n) = true) : PreciseInterrupt ins n := by
  obtain ⟨hw, hnf, hi, hj, hx, hjump⟩ := interrupt_facts h
  have hfront : ∀ m, FrontInv (run ins m) (ledger reset ins m).programPc :=
    frontInv_runFrom idle_reset
  have hledger : ledger reset ins (n + 1) = (ledger reset ins n).next (run ins n) (ins n) := rfl
  -- Whatever was in MEM leaves with the interrupt, and nothing follows it.
  have hin : (ledger reset ins (n + 1)).inMem = none := by
    rw [hledger, Ledger.inMem_of_move hw, hi]
    rfl
  have hfate : strandsAmoPhase (run ins n) (ins n) = false := by
    rw [strandsAmoPhase, hnf, Bool.false_and, Bool.false_and]
  have hs' : ∀ m < n + 1, strandsAmoPhase (run ins m) (ins m) = false := by
    intro m hm
    rcases Nat.lt_succ_iff_lt_or_eq.mp hm with hm | rfl
    · exact hs m hm
    · exact hfate
  constructor
  case epc => exact (hfront n).interruptPc
  case commits => exact commits_of_interrupt h
  case order =>
    intro m hm
    simp only [issues, Bool.and_eq_true] at hm
    exact (hfront m).ex hm.1.1
  case last =>
    refine ⟨hin, _, Ledger.left_of_move hw, ?_, ?_⟩
    · cases (ledger reset ins n).inMem <;> rfl
    · intro d hd
      rw [Option.mem_toList, Option.map_eq_some_iff] at hd
      obtain ⟨e, -, rfl⟩ := hd
      exact hnf
  case complete => exact complete_of_mem_left idle_reset (n + 1) hs'
  case accesses =>
    rw [accessLog_eq idle_reset, hin]
    simp
  case writes => rw [writeLog_succ, writeLog_eq idle_reset]
  case registerFile => exact (registerFile_eq idle_reset (n + 2)).1
  case reservation => exact atomicLsu_eq idle_reset (n + 1)
  case csr =>
    intro m
    refine ⟨action_of_issues, fun hi hr => action_of_not_issues (hfront m) hi ?_⟩
    rw [← redirect?_isSome, hr]
    rfl
  case dropped =>
    -- An interrupt redirects, which empties IF/ID and EX.
    rcases front_cases (run ins n) (ins n) with ⟨-, -, hid, hex⟩ | ⟨hj', -⟩ | ⟨hj', -⟩ | ⟨hj', -⟩
    · refine ⟨hi, ?_, ?_, fetchDiscard_of_jSignal hj⟩
      · change (next (run ins n) (ins n)).idEx.instrValid = false
        rw [hex]
        rfl
      · change (next (run ins n) (ins n)).ifId.instructionValid = false
        rw [hid]
    all_goals exact absurd (hj'.symm.trans hj) Bool.false_ne_true
  case resume =>
    change nextProgramPc (run ins n) (ins n) _ = _
    rw [nextProgramPc, if_pos hj]
    exact hjump

/-- The words fetched while `mie.MTIE`, `mstatus.MPRV` and `satp.MODE` are set and an AMO follows;
behind its trap, the handler loads and sets `mstatus.MIE`. The two words behind each CSR write come
twice, since the write refetches them. -/
def strandedAmoWords : List Word :=
  [0x000200B7#32, 0x30009073#32,                -- lui x1, 0x20; csrw mstatus, x1
    0x08000213#32, 0x30421073#32,
    0x08000213#32, 0x30421073#32,               -- li x4, 0x80; csrw mie, x4
    0x80000137#32, 0x18011073#32,
    0x80000137#32, 0x18011073#32,               -- lui x2, 0x80000; csrw satp, x2
    0x000021AF#32, nopInstr, 0x000021AF#32,     -- amoadd.w x3, x0, (x0)
    nopInstr, nopInstr, nopInstr, nopInstr,
    0x00002283#32, 0x30046073#32]               -- lw x5, 0(x0); csrsi mstatus, 8

/-- The inputs of that run. The AMO's read answers `0x11` in cycle 15, its write page-faults in
cycle 16 if `fault` says so, and the next access answers `0x55` in cycle 20. -/
def strandedAmo (fault : Bool) (n : ℕ) : CpuIn :=
  { quietFetch (strandedAmoWords.getD n nopInstr) with
    readDataIn := if n == 15 then 0x11#32 else 0x55#32
    dataRvalidIn := n == 15 || n == 20 || (!fault && n == 16)
    storePageFaultIn := fault && n == 16
    timerInterrupt := 16 ≤ n }

/-- Without the page fault the interrupt of cycle 21 is precise. -/
theorem preciseInterrupt_handlerLoad : PreciseInterrupt (strandedAmo false) 21 :=
  run_preciseInterrupt (strandedAmo false) 21 (by decide +kernel) (by decide +kernel)

/-- **A page fault strands the phase of an AMO, and a load before the interrupted instruction is
wrong.** The AMO page-faults in its write phase, the handler's load takes the AMO's word `0x11` for
the `0x55` it reads, and the interrupt of cycle 21 finds it so. -/
theorem interrupt_over_strandedAmo :
    dataMmuEnable (run (strandedAmo true) 16) = true ∧
      interruptTakenQualified (run (strandedAmo true) 21) (strandedAmo true 21) = true ∧
      (run (strandedAmo true) 22).registerFile 5#5 = 0x11#32 ∧
      ¬ PreciseInterrupt (strandedAmo true) 21 := by
  refine ⟨by decide +kernel, by decide +kernel, by decide +kernel, fun h => ?_⟩
  -- The eighth instruction of the run is the load.
  have hload : ((ledger reset (strandedAmo true) 22).left[7]?.map fun d =>
      (d.faulted, d.slot.instrId, d.accesses, d.out.rdValue)) =
        some (false, .lw, [.read 0#32 0b010#3 0x55#32], 0x11#32) := by decide +kernel
  obtain ⟨d, hd, hfacts⟩ := Option.map_eq_some_iff.mp hload
  simp only [Prod.mk.injEq] at hfacts
  obtain ⟨hf, hid, hacc, hval⟩ := hfacts
  have hread := (h.complete d (List.mem_of_getElem? hd) hf).rdValue_of_lw hid hacc
  rw [hval] at hread
  exact absurd hread (by decide)

end RiscvCpu

end Synapse32
