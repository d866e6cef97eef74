import Synapse32.Core.Interrupts
import Synapse32.Core.Privilege

/-! # Fences in EX

SFENCE.VMA, a write of `satp` and FENCE.I redirect the fetch behind them in the cycle in which they
leave EX, so that nothing that was fetched before is executed behind them. -/

namespace Synapse32

namespace ExecutionUnit

variable {x : ExIn}

/-- Where the opcode asks for a redirect, EX does, whatever comes first. -/
theorem executionUnit_jumps (ha : x.stageEnable = true)
    (h : (executeOpcode x).jumpSignal = true) : (executionUnit x).jumpSignal = true := by
  have hreport : ∀ o : ExOut, (reportInstr x.instr o).jumpSignal = o.jumpSignal := by
    intro o
    unfold reportInstr
    split <;> rfl
  rw [executionUnit, hreport, ha]
  change (ungated x).jumpSignal = true
  unfold ungated
  split
  · rfl
  · split
    · rfl
    · split
      · rfl
      · exact h

/-- SFENCE.VMA redirects, or traps. -/
theorem executeSystem_of_sfence (h : x.instrId = .sfenceVma) :
    (executeSystem x).jumpSignal = true := by
  unfold executeSystem
  rw [h]
  dsimp only
  split <;> rfl

/-- So does every CSR instruction that writes. -/
theorem executeSystem_of_csrWrite (h : csrWriteEnable x = true) :
    (executeSystem x).jumpSignal = true := by
  have hcsr : (executeCsr x).jumpSignal = true := by
    unfold executeCsr
    rw [h]
    split <;> rfl
  unfold csrWriteEnable csrExecInst csrExec at h
  unfold executeSystem
  revert h
  cases x.instrId <;> first
    | exact fun _ => hcsr
    | exact fun h => absurd h Bool.false_ne_true

/-- The instructions that write CSRs have the SYSTEM opcode. -/
theorem majorOpcode_of_csrWrite (h : csrWriteEnable x = true) :
    Decoder.majorOpcode x.instrId = 0b1110011#7 := by
  unfold csrWriteEnable csrExecInst csrExec at h
  revert h
  cases x.instrId <;> first
    | exact fun _ => rfl
    | exact fun h => absurd h Bool.false_ne_true

end ExecutionUnit

/-! ## Writes of `satp` -/

namespace CsrFile

/-- A CSR write of another register keeps `satp`. -/
theorem csrWrite_satp (f : CsrFile) {a : BitVec 12} (d : Word) (h : a ≠ 0x180#12) :
    (f.csrWrite a d).satp = f.satp := by
  unfold csrWrite
  simp only [apply_ite CsrFile.satp, if_neg h, ite_self]

/-- A trap keeps `satp`. -/
theorem enter_satp (f : CsrFile) (t : Trap) : (f.enter t).satp = f.satp := by
  rw [enter]
  exact (apply_ite CsrFile.satp _ _ _).trans (ite_self _)

end CsrFile

namespace RiscvCpu

variable {s : RiscvCpu} {i : CpuIn} {programPc : Word}

/-- A bubble in EX writes no CSR. -/
theorem instrValid_of_csrWriteEnable (hf : FrontInv s programPc)
    (h : csrWriteEnable s i = true) : s.idEx.instrValid = true := by
  by_contra hv
  have hid := (hf.exBubble (Bool.eq_false_of_not_eq_true hv)).facts.2.1
  have hw : (csrExec s.idEx.dec.instrId (ExecutionUnit.rs1Value (exIn s i)) s.idEx.dec.rs1
    (csrReadData s i) (csrRmwData s i)).csrWriteEnable = true := h
  rw [hid] at hw
  exact Bool.false_ne_true hw

/-- **A write of `satp` flushes the TLB.** -/
theorem satp_next (hf : FrontInv s programPc) (h : tlbFlush s i = false) :
    (next s i).csrFile.satp = s.csrFile.satp := by
  rw [next_csrFile]
  cases ha : s.csrFile.action (csrIn s i) with
  | trap t => exact CsrFile.enter_satp _ t
  | mret => rfl
  | sret => rfl
  | write a d =>
    obtain ⟨-, -, hwe, hact, rfl, -⟩ := of_action_write ha
    refine CsrFile.csrWrite_satp _ d fun haddr => ?_
    have hflush : tlbFlush s i = true := by
      simp [tlbFlush, hact, instrValid_of_csrWriteEnable hf hwe, hwe, haddr]
    exact Bool.false_ne_true (h.symm.trans hflush)
  | none => rfl

/-! ## Redirects -/

/-- The opcode of an instruction in EX. -/
theorem FrontInv.opcode (hf : FrontInv s programPc) (hv : s.idEx.instrValid = true)
    (hid : s.idEx.dec.instrId ≠ .invalid) :
    s.idEx.dec.opcode = Decoder.majorOpcode s.idEx.dec.instrId := by
  rw [hf.exDec hv] at hid ⊢
  exact Decoder.opcode_eq_majorOpcode hid

/-- A system instruction in EX redirects if it asks for it. -/
theorem jSignal_of_system (ha : exStageActive s i = true) (hop : (exIn s i).opcode = 0b1110011#7)
    (h : (ExecutionUnit.executeSystem (exIn s i)).jumpSignal = true) : jSignal s i = true := by
  have hj : (exOut s i).jumpSignal = true := by
    refine ExecutionUnit.executionUnit_jumps ha ?_
    rw [ExecutionUnit.executeOpcode_of_system _ hop]
    exact h
  rw [jSignal, hj, Bool.or_true]

/-- **A CSR write comes with a redirect**: to the next instruction, or to a trap. -/
theorem jSignal_of_csrWrite (hf : FrontInv s programPc) (ha : exStageActive s i = true)
    (h : csrWriteEnable s i = true) : jSignal s i = true := by
  have hmajor := ExecutionUnit.majorOpcode_of_csrWrite h
  refine jSignal_of_system ha ?_ (ExecutionUnit.executeSystem_of_csrWrite h)
  refine (hf.opcode (instrValid_of_csrWriteEnable hf h) fun hinv => ?_).trans hmajor
  have hinv : (exIn s i).instrId = .invalid := hinv
  rw [hinv] at hmajor
  exact absurd hmajor (by decide)

/-- **A flush of the TLB comes with a redirect**: to the next instruction, or to a trap. -/
theorem jSignal_of_tlbFlush (hf : FrontInv s programPc) (h : tlbFlush s i = true) :
    exStageActive s i = true ∧ jSignal s i = true := by
  simp only [tlbFlush, Bool.and_eq_true, Bool.or_eq_true, beq_iff_eq] at h
  obtain ⟨⟨ha, hv⟩, hid⟩ := h
  refine ⟨ha, ?_⟩
  rcases hid with hid | ⟨hwe, -⟩
  · refine jSignal_of_system ha ?_ (ExecutionUnit.executeSystem_of_sfence hid)
    have hop := hf.opcode hv (by rw [hid]; decide)
    rw [hid] at hop
    exact hop
  · exact jSignal_of_csrWrite hf ha hwe

/-- **A flush of the instruction cache comes with a redirect.** -/
theorem jSignal_of_instrCacheFlush (hf : FrontInv s programPc) (h : instrCacheFlush s i = true) :
    exStageActive s i = true ∧ jSignal s i = true := by
  simp only [instrCacheFlush, Bool.and_eq_true, beq_iff_eq] at h
  obtain ⟨⟨ha, hv⟩, hid⟩ := h
  refine ⟨ha, ?_⟩
  have hop : (exIn s i).opcode = 0b0001111#7 := by
    have hop := hf.opcode hv (by rw [hid]; decide)
    rw [hid] at hop
    exact hop
  have hj : (exOut s i).jumpSignal = true := by
    refine ExecutionUnit.executionUnit_jumps ha ?_
    have hfence : (exIn s i).instrId = .fenceI := hid
    simp [ExecutionUnit.executeOpcode, hop, hfence, ExecutionUnit.redirect]
  rw [jSignal, hj, Bool.or_true]

/-- Behind a redirect neither decode nor EX holds an instruction. -/
theorem emptied_of_jSignal (h : jSignal s i = true) :
    (next s i).ifId.instructionValid = false ∧ (next s i).idEx.instrValid = false := by
  rcases front_cases s i with ⟨-, -, hid, hex⟩ | ⟨hj, -⟩ | ⟨hj, -⟩ | ⟨hj, -⟩
  · rw [hid, hex]
    exact ⟨rfl, rfl⟩
  all_goals exact absurd (hj.symm.trans h) Bool.false_ne_true

/-- MEM does not wait in a cycle in which EX is active. -/
theorem memWait_of_active (h : exStageActive s i = true) : memWait s i = false := by
  rw [exStageActive, Bool.and_eq_true, Bool.not_eq_true'] at h
  exact h.1

/-! ## Fetches that a redirect overtakes -/

/-- The cycle in which the fetch was granted that is not answered before cycle `n`. -/
def grantCycle (ins : ℕ → CpuIn) : ℕ → Option ℕ
  | 0 => none
  | n + 1 =>
    if (ins n).instrRvalidIn then none
    else if (ins n).instrGntIn then some n
    else grantCycle ins n

/-- The cycle in which the fetch was granted that an answer in cycle `n` is for. -/
def answeredGrant (ins : ℕ → CpuIn) (n : ℕ) : Option ℕ :=
  if (ins n).instrGntIn then some n else grantCycle ins n

variable {ins : ℕ → CpuIn} {n t g : ℕ}

/-- A fetch is granted before it is answered. -/
theorem grantCycle_lt (h : grantCycle ins n = some g) : g < n := by
  induction n with
  | zero => cases h
  | succ n ih =>
    rw [grantCycle] at h
    split at h
    · cases h
    · split at h
      · obtain rfl := Option.some.inj h
        exact Nat.lt_succ_self _
      · exact Nat.lt_succ_of_lt (ih h)

/-- The grant of the fetch that is answered does not lie ahead. -/
theorem answeredGrant_le (h : answeredGrant ins n = some g) : g ≤ n := by
  rw [answeredGrant] at h
  split at h
  · obtain rfl := Option.some.inj h
    exact le_rfl
  · exact Nat.le_of_lt (grantCycle_lt h)

/-- A fetch is outstanding when one has been granted and not answered. -/
theorem fetchOutstanding_run (n : ℕ) :
    (run ins n).fetchOutstanding = (grantCycle ins n).isSome := by
  induction n with
  | zero => rfl
  | succ n ih =>
    change nextFetchOutstanding (run ins n) (ins n) = _
    rw [nextFetchOutstanding, grantCycle, ih]
    split
    · rfl
    · split <;> rfl

/-- **The answer to a fetch that a redirect has overtaken is dropped.** -/
theorem fetchDiscard_run (hj : jSignal (run ins t) (ins t) = true) (hgt : g ≤ t)
    (htn : t < n) (hg : grantCycle ins n = some g) : (run ins n).fetchDiscard = true := by
  induction n, htn using Nat.le_induction with
  | base =>
    refine fetchDiscard_of_jSignal hj ?_
    change (run ins (t + 1)).fetchOutstanding = true
    rw [fetchOutstanding_run, hg]
    rfl
  | succ n htn ih =>
    change nextFetchDiscard (run ins n) (ins n) = true
    rw [grantCycle] at hg
    split at hg
    · cases hg
    rename_i hr
    split at hg
    · obtain rfl := Option.some.inj hg
      omega
    · rw [nextFetchDiscard, ih hg, Bool.eq_false_of_not_eq_true hr, if_neg Bool.false_ne_true,
        ite_self]

/-- **What is fetched behind a redirect was granted behind it.** -/
theorem lt_of_answeredGrant (hj : jSignal (run ins t) (ins t) = true) (htn : t < n)
    (hv : fetchResponseValid (run ins n) (ins n) = true) (hg : answeredGrant ins n = some g) :
    t < g := by
  rw [answeredGrant] at hg
  split at hg
  · obtain rfl := Option.some.inj hg
    exact htn
  · by_contra hle
    have hd := fetchDiscard_run hj (Nat.le_of_not_lt hle) htn hg
    rw [fetchResponseValid, hd, Bool.not_true, Bool.and_false] at hv
    exact Bool.false_ne_true hv

end RiscvCpu

end Synapse32
