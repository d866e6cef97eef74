import Synapse32.Core.Pending

/-! # `mcycle`

The free-running increment is held back by a decode of the CSR address in EX, the write itself is
decided further down the priority chain of the CSR file. This file compares the two. -/

namespace Synapse32

namespace CsrFile

/-- The action writes a half of the counter. -/
def setsMcycle : CsrAction → Bool
  | .write r _ => r == 0xB00#12 || r == 0xB80#12
  | _ => false

/-- The counter after an action: only a write of one of its halves changes it. -/
theorem cycleCounter_perform (f : CsrFile) {a : CsrAction} (h : setsMcycle a = false) :
    (f.perform a).cycleCounter = f.cycleCounter := by
  cases a with
  | trap t =>
    change (f.enter t).cycleCounter = _
    rw [enter]
    exact (apply_ite CsrFile.cycleCounter _ _ _).trans (ite_self _)
  | mret => rfl
  | sret => rfl
  | write r d =>
    obtain ⟨hlow, hhigh⟩ : r ≠ 0xB00#12 ∧ r ≠ 0xB80#12 := by simpa [setsMcycle] using h
    change (f.csrWrite r d).cycleCounter = _
    unfold csrWrite
    simp only [apply_ite CsrFile.cycleCounter, if_neg hlow, if_neg hhigh, ite_self]
  | none => rfl

/-- A write of one half keeps the other. -/
theorem cycleCounter_perform_low (f : CsrFile) (d : Word) :
    (f.perform (.write 0xB00#12 d)).cycleCounter = f.cycleCounter.extractLsb' 32 32 ++ d := rfl

/-- A write of `mcycleh` sets the upper word. -/
theorem cycleCounter_perform_high (f : CsrFile) (d : Word) :
    (f.perform (.write 0xB80#12 d)).cycleCounter = d ++ f.cycleCounter.extractLsb' 0 32 := rfl

end CsrFile

namespace RiscvCpu

variable {s : RiscvCpu} {i : CpuIn}

/-- A CSR instruction that writes a half of `mcycle` leaves EX. -/
def commitsMcycle (s : RiscvCpu) (i : CpuIn) : Bool :=
  commitsCsrWrite s i 0xB00#12 || commitsCsrWrite s i 0xB80#12

/-- A CSR instruction in EX names a half of `mcycle` as its destination, and the cycle squashes it:
it is illegal in its mode, it is interrupted, or an older access page-faults in MEM. -/
def squashesMcycle (s : RiscvCpu) (i : CpuIn) : Bool :=
  CsrFile.writesMcycle (csrIn s i) && exMemFlush s i

/-- **What `writes_mcycle` sees**: an instruction that commits, or one that is squashed. -/
theorem writesMcycle_eq {programPc : Word} (hf : FrontInv s programPc) :
    CsrFile.writesMcycle (csrIn s i) = (commitsMcycle s i || squashesMcycle s i) := by
  have hnames : CsrFile.writesMcycle (csrIn s i) =
      (csrWriteEnable s i && exStageActive s i &&
        (csrAddr s == 0xB00#12 || csrAddr s == 0xB80#12)) := rfl
  have hcommit : commitsMcycle s i =
      (issues s i && csrWriteEnable s i && (csrAddr s == 0xB00#12 || csrAddr s == 0xB80#12)) :=
    (Bool.and_or_distrib_left _ _ _).symm
  rw [hcommit, squashesMcycle, hnames, issues]
  cases hw : csrWriteEnable s i
  · simp
  · rw [instrValid_of_csrWriteEnable hf hw]
    cases exStageActive s i <;> cases exMemFlush s i <;> simp

/-- Without a commit the CSR file performs no write of the counter. -/
theorem setsMcycle_of_not_commits {programPc : Word} (hf : FrontInv s programPc)
    (h : commitsMcycle s i = false) :
    CsrFile.setsMcycle (s.csrFile.action (csrIn s i)) = false := by
  rw [commitsMcycle, Bool.or_eq_false_iff] at h
  by_contra hset
  cases ha : s.csrFile.action (csrIn s i) with
  | write r d =>
    obtain ⟨-, -, -, -, -, rfl⟩ := of_action_write ha
    rw [ha] at hset
    simp only [CsrFile.setsMcycle, Bool.not_eq_false, Bool.or_eq_true, beq_iff_eq] at hset
    rcases hset with rfl | rfl
    · exact absurd ((commitsCsrWrite_iff hf (by decide)).mpr ha) (by rw [h.1]; decide)
    · exact absurd ((commitsCsrWrite_iff hf (by decide)).mpr ha) (by rw [h.2]; decide)
  | _ =>
    rw [ha] at hset
    exact hset rfl

/-- The counter before the write of the cycle. -/
theorem cycleCounter_tick {programPc : Word} (hf : FrontInv s programPc) :
    (s.csrFile.tick (csrIn s i)).cycleCounter =
      if s.csrFile.mcountinhibit.getLsbD 0 || commitsMcycle s i || squashesMcycle s i then
        s.csrFile.cycleCounter
      else s.csrFile.cycleCounter + 1 := by
  have htick : (s.csrFile.tick (csrIn s i)).cycleCounter =
      if !s.csrFile.mcountinhibit.getLsbD 0 && !CsrFile.writesMcycle (csrIn s i) then
        s.csrFile.cycleCounter + 1
      else s.csrFile.cycleCounter := rfl
  rw [htick, writesMcycle_eq hf]
  cases s.csrFile.mcountinhibit.getLsbD 0 <;> cases commitsMcycle s i <;>
    cases squashesMcycle s i <;> rfl

/-- **The counter after a cycle without a commit.** -/
theorem cycleCounter_next {programPc : Word} (hf : FrontInv s programPc)
    (h : commitsMcycle s i = false) :
    (next s i).csrFile.cycleCounter =
      if s.csrFile.mcountinhibit.getLsbD 0 || squashesMcycle s i then s.csrFile.cycleCounter
      else s.csrFile.cycleCounter + 1 := by
  rw [next_csrFile, CsrFile.cycleCounter_perform _ (setsMcycle_of_not_commits hf h),
    cycleCounter_tick hf, h, Bool.or_false]

/-- **The counter after a write of its low half.** -/
theorem cycleCounter_next_of_low {programPc : Word} (hf : FrontInv s programPc)
    (h : commitsCsrWrite s i 0xB00#12 = true) :
    (next s i).csrFile.cycleCounter =
      s.csrFile.cycleCounter.extractLsb' 32 32 ++ ExecutionUnit.csrWriteData (exIn s i) := by
  rw [next_csrFile, (commitsCsrWrite_iff hf (by decide)).mp h, CsrFile.cycleCounter_perform_low,
    cycleCounter_tick hf, commitsMcycle, h, Bool.true_or, Bool.or_true, Bool.true_or, if_pos rfl]

/-- **The counter after a write of its high half.** -/
theorem cycleCounter_next_of_high {programPc : Word} (hf : FrontInv s programPc)
    (h : commitsCsrWrite s i 0xB80#12 = true) :
    (next s i).csrFile.cycleCounter =
      ExecutionUnit.csrWriteData (exIn s i) ++ s.csrFile.cycleCounter.extractLsb' 0 32 := by
  rw [next_csrFile, (commitsCsrWrite_iff hf (by decide)).mp h, CsrFile.cycleCounter_perform_high,
    cycleCounter_tick hf, commitsMcycle, h, Bool.or_true, Bool.or_true, Bool.true_or, if_pos rfl]

/-! ## Over runs -/

/-- **`mcycle` is exact** in cycle `n`: it counts the cycle, modulo `2 ^ 64`, unless it is inhibited
or an instruction that writes one of its halves commits; that instruction leaves the value it
writes in its half and the other half as it was. -/
structure CycleExact (ins : ℕ → CpuIn) (n : ℕ) : Prop where
  counts : (run ins n).csrFile.mcountinhibit.getLsbD 0 = false →
    commitsMcycle (run ins n) (ins n) = false →
    (run ins (n + 1)).csrFile.cycleCounter = (run ins n).csrFile.cycleCounter + 1
  inhibited : (run ins n).csrFile.mcountinhibit.getLsbD 0 = true →
    commitsMcycle (run ins n) (ins n) = false →
    (run ins (n + 1)).csrFile.cycleCounter = (run ins n).csrFile.cycleCounter
  low : commitsCsrWrite (run ins n) (ins n) 0xB00#12 = true →
    (run ins (n + 1)).csrFile.cycleCounter =
      (run ins n).csrFile.cycleCounter.extractLsb' 32 32 ++
        ExecutionUnit.csrWriteData (exIn (run ins n) (ins n))
  high : commitsCsrWrite (run ins n) (ins n) 0xB80#12 = true →
    (run ins (n + 1)).csrFile.cycleCounter =
      ExecutionUnit.csrWriteData (exIn (run ins n) (ins n)) ++
        (run ins n).csrFile.cycleCounter.extractLsb' 0 32

/-- A squashed instruction does not commit. -/
theorem not_commitsMcycle_of_squashes (h : squashesMcycle s i = true) :
    commitsMcycle s i = false := by
  rw [squashesMcycle, Bool.and_eq_true] at h
  simp [commitsMcycle, commitsCsrWrite, issues, h.2]

/-- **`mcycle` is exact in exactly the cycles that squash no write of it.** In every run, the
counter is exact in a cycle if and only if it is inhibited there or no instruction that names one of
its halves is squashed in EX. -/
theorem run_cycleExact_iff (ins : ℕ → CpuIn) (n : ℕ) :
    CycleExact ins n ↔
      ((run ins n).csrFile.mcountinhibit.getLsbD 0 = true ∨
        squashesMcycle (run ins n) (ins n) = false) := by
  have hf : FrontInv (run ins n) (ledger reset ins n).programPc := frontInv_runFrom idle_reset n
  have hnext : commitsMcycle (run ins n) (ins n) = false →
      (run ins (n + 1)).csrFile.cycleCounter =
        if (run ins n).csrFile.mcountinhibit.getLsbD 0 || squashesMcycle (run ins n) (ins n) then
          (run ins n).csrFile.cycleCounter
        else (run ins n).csrFile.cycleCounter + 1 := cycleCounter_next hf
  constructor
  · intro h
    by_contra hcon
    rw [not_or, Bool.not_eq_true, Bool.not_eq_false] at hcon
    obtain ⟨hcy, hsq⟩ := hcon
    -- A squashed write stops the counter, though nothing is written.
    have hnc := not_commitsMcycle_of_squashes hsq
    have hcount := h.counts hcy hnc
    rw [hnext hnc, hsq, Bool.or_true, if_pos rfl] at hcount
    simp at hcount
  · intro h
    constructor
    case counts =>
      intro hcy hnc
      -- Not inhibited, so by the condition no write is squashed.
      have hsq := h.resolve_left (by rw [hcy]; decide)
      rw [hnext hnc, hcy, hsq]
      rfl
    case inhibited =>
      intro hcy hnc
      rw [hnext hnc, hcy]
      rfl
    case low => exact cycleCounter_next_of_low hf
    case high => exact cycleCounter_next_of_high hf

/-- The words of a run that enters U-mode and writes `mcycle` there. The two words behind the CSR
write come twice, since the write refetches them. -/
def userMcycleWords : List Word :=
  [0x30005073#32,                               -- csrwi mstatus, 0
    0x30200073#32, nopInstr, 0x30200073#32,     -- mret
    0xB0005073#32, nopInstr, 0xB0005073#32]     -- csrwi mcycle, 0

/-- The inputs of that run. -/
def userMcycle (n : ℕ) : CpuIn := quietFetch (userMcycleWords.getD n nopInstr)

/-- **A trapped write of `mcycle` loses a count.** User code names `mcycle` in cycle 8 and traps
there with an illegal instruction; the counter stands at 8 before and after. -/
theorem cycleCounter_userMcycle :
    (run userMcycle 8).csrFile.privilegeMode = privU ∧
      (exOut (run userMcycle 8) (userMcycle 8)).illegalInstructionException = true ∧
      (run userMcycle 8).csrFile.mcountinhibit.getLsbD 0 = false ∧
      (run userMcycle 8).csrFile.cycleCounter = 8#64 ∧
      (run userMcycle 9).csrFile.cycleCounter = 8#64 ∧ ¬ CycleExact userMcycle 8 := by
  refine ⟨by decide +kernel, by decide +kernel, by decide +kernel, by decide +kernel,
    by decide +kernel, fun h => ?_⟩
  have hcount := h.counts (by decide +kernel) (by decide +kernel)
  exact absurd hcount (by decide +kernel)

end RiscvCpu

end Synapse32
