import Synapse32.Core.Alu
import Synapse32.Core.Privilege

/-! # The PC is word aligned

Every writer of the PC: sequential fetch, branches and jumps, trap vectors, refetches and the two
returns. All but the returns produce an aligned address; a return goes to whatever software has
stored in `mepc` or `sepc`. -/

namespace Synapse32

/-- Bits 1:0 are zero. -/
def WordAligned (a : Word) : Prop := a.toNat % 4 = 0

/-- Whether an address is aligned can be decided. -/
instance : DecidablePred WordAligned := fun a => inferInstanceAs (Decidable (a.toNat % 4 = 0))

/-- Aligned addresses add up to one. -/
theorem WordAligned.add {a b : Word} (ha : WordAligned a) (hb : WordAligned b) :
    WordAligned (a + b) := by
  unfold WordAligned at *
  rw [BitVec.toNat_add]
  omega

/-- A word with two zero bits appended. -/
theorem wordAligned_append (a : BitVec 30) : WordAligned (a ++ 0#2) := by
  unfold WordAligned
  rw [BitVec.toNat_append]
  simp only [BitVec.toNat_ofNat, Nat.zero_mod, Nat.or_zero, Nat.shiftLeft_eq]
  omega

/-- The word behind an aligned one is aligned. -/
theorem WordAligned.add_four {a : Word} (ha : WordAligned a) : WordAligned (a + 4#32) :=
  ha.add (by decide)

/-! ## Targets of EX -/

namespace ExecutionUnit

variable {x : ExIn}

/-- The inputs of EX whose addresses are aligned, the two return addresses apart. -/
structure AlignedIn (x : ExIn) : Prop where
  pc : WordAligned x.pcInput
  mtvec : WordAligned x.mtvec
  stvec : WordAligned x.stvec
  interruptVector : WordAligned x.interruptVector

/-- A redirect goes to an aligned address, or it is a return. -/
def Lands (x : ExIn) (o : ExOut) : Prop :=
  o.jumpSignal = true → WordAligned o.jumpAddr ∨
    (o.mretInstruction = true ∧ o.jumpAddr = x.mepc) ∨
    (o.sretInstruction = true ∧ o.jumpAddr = x.sepc)

/-- A trap goes to one of the two vectors. -/
theorem AlignedIn.lands_trap (h : AlignedIn x) {o : ExOut} {b : Bool}
    (ho : o.jumpAddr = if b then x.stvec else x.mtvec) : Lands x o := by
  intro _
  rw [ho]
  split
  · exact .inl h.stvec
  · exact .inl h.mtvec

/-- The instruction after the one in EX. -/
theorem AlignedIn.lands_refetch (h : AlignedIn x) (o : ExOut) :
    Lands x (redirect o (x.pcInput + 4#32)) := fun _ => .inl h.pc.add_four

/-- **A branch or jump lands on an aligned address, or traps.** -/
theorem AlignedIn.lands_jumpTo (h : AlignedIn x) (v target : Word) :
    Lands x (jumpTo x { execOutput := v } target) := by
  unfold jumpTo
  split
  · exact h.lands_trap rfl
  · rename_i hlow
    rw [low_two, decide_eq_true_eq] at hlow
    exact fun _ => .inl (not_not.mp hlow)

/-- A load redirects to a vector only. -/
theorem AlignedIn.lands_executeLoad (h : AlignedIn x) : Lands x (executeLoad x) := by
  unfold executeLoad
  dsimp only
  split
  · exact h.lands_trap rfl
  · split
    · exact h.lands_trap rfl
    · exact nofun

/-- A store redirects to a vector only. -/
theorem AlignedIn.lands_executeStore (h : AlignedIn x) : Lands x (executeStore x) := by
  unfold executeStore
  dsimp only
  split
  · exact h.lands_trap rfl
  · split
    · exact h.lands_trap rfl
    · exact nofun

/-- An atomic redirects to a vector only. -/
theorem AlignedIn.lands_executeAtomic (h : AlignedIn x) : Lands x (executeAtomic x) := by
  unfold executeAtomic
  dsimp only
  split
  · exact h.lands_trap rfl
  · split
    · exact h.lands_trap rfl
    · split
      · exact h.lands_trap rfl
      · exact nofun

/-- A branch that is taken goes to an aligned target, or traps. -/
theorem AlignedIn.lands_executeBranch (h : AlignedIn x) : Lands x (executeBranch x) := by
  unfold executeBranch
  split
  · exact h.lands_jumpTo _ _
  · exact nofun

/-- A CSR instruction redirects to a vector only. -/
theorem AlignedIn.lands_executeCsr (h : AlignedIn x) : Lands x (executeCsr x) := by
  unfold executeCsr
  split
  · exact h.lands_trap rfl
  · split
    · exact h.lands_refetch _
    · exact nofun

/-- A system instruction goes to a vector, or it is a return. -/
theorem AlignedIn.lands_executeSystem (h : AlignedIn x) : Lands x (executeSystem x) := by
  unfold executeSystem
  split
  · split
    · exact h.lands_trap rfl
    · exact fun _ => .inr (.inl ⟨rfl, rfl⟩)
  · split
    · exact h.lands_trap rfl
    · exact fun _ => .inr (.inr ⟨rfl, rfl⟩)
  · exact h.lands_trap rfl
  · exact h.lands_trap rfl
  · split
    · exact h.lands_trap rfl
    · exact fun _ => .inl h.pc.add_four
  · split
    · exact h.lands_trap rfl
    · exact h.lands_refetch _
  · exact h.lands_executeCsr

/-- **Every redirect of EX is aligned, or a return.** -/
theorem AlignedIn.lands (h : AlignedIn x) : Lands x (executionUnit x) := by
  have hungated : Lands x (ungated x) := by
    unfold ungated
    split
    · exact fun _ => .inl h.interruptVector
    split
    · exact h.lands_trap rfl
    split
    · exact h.lands_trap rfl
    · exact executeOpcode_cases x (fun _ => nofun) (fun _ => h.lands_executeLoad)
        (fun _ => h.lands_executeStore) (fun _ => h.lands_executeAtomic)
        (fun _ => h.lands_executeBranch) (fun _ => h.lands_jumpTo _ _)
        (fun _ => h.lands_jumpTo _ _) (fun _ => nofun) (fun _ => nofun)
        (fun _ => h.lands_executeSystem) (fun _ _ => h.lands_refetch _) nofun
  have hreport : ∀ (w : Word) (o : ExOut), Lands x o → Lands x (reportInstr w o) := by
    intro w o ho
    unfold reportInstr
    split <;> exact ho
  unfold executionUnit
  refine hreport _ _ ?_
  cases x.stageEnable
  · exact nofun
  · exact hungated

/-- What a system instruction that EX gets to asks for. -/
theorem executionUnit_eq_executeSystem (hr : reachesOpcode x = true)
    (hop : x.opcode = 0b1110011#7) (hid : x.instrId ≠ .invalid) :
    executionUnit x = reportInstr x.instr (executeSystem x) := by
  simp only [reachesOpcode, Bool.and_eq_true, Bool.not_eq_true'] at hr
  obtain ⟨⟨ha, hp⟩, ht⟩ := hr
  unfold executionUnit ungated
  rw [ha, hp, ht, if_neg Bool.false_ne_true, if_neg Bool.false_ne_true,
    if_neg fun h => hid h.2, executeOpcode_of_system x hop]
  rfl

/-- An MRET that is performed redirects to `mepc`. -/
theorem jump_of_mret (h : (executionUnit x).mretInstruction = true) :
    (executionUnit x).jumpSignal = true ∧ (executionUnit x).jumpAddr = x.mepc := by
  rw [executionUnit_mret, Bool.and_eq_true] at h
  obtain ⟨hr, hl⟩ := h
  simp only [legalMret, Bool.and_eq_true, beq_iff_eq] at hl
  obtain ⟨⟨hop, hid⟩, hm⟩ := hl
  have hmode : (x.privilegeMode != privM) = false := by simp [hm]
  rw [executionUnit_eq_executeSystem hr hop (by rw [hid]; exact InstrId.noConfusion)]
  unfold executeSystem
  rw [hid]
  dsimp only
  rw [hmode]
  exact ⟨rfl, rfl⟩

/-- An SRET that is performed redirects to `sepc`. -/
theorem jump_of_sret (h : (executionUnit x).sretInstruction = true) :
    (executionUnit x).jumpSignal = true ∧ (executionUnit x).jumpAddr = x.sepc := by
  rw [executionUnit_sret, Bool.and_eq_true] at h
  obtain ⟨hr, hl⟩ := h
  simp only [legalSret, Bool.and_eq_true, beq_iff_eq, Bool.not_eq_true'] at hl
  obtain ⟨⟨hop, hid⟩, hm⟩ := hl
  rw [executionUnit_eq_executeSystem hr hop (by rw [hid]; exact InstrId.noConfusion)]
  unfold executeSystem
  rw [hid]
  dsimp only
  rw [hm]
  exact ⟨rfl, rfl⟩

end ExecutionUnit

namespace RiscvCpu

variable {s : RiscvCpu} {i : CpuIn}

/-- **The addresses the core holds are aligned**: the fetch PC and those of the pipeline
registers. -/
structure Aligned (s : RiscvCpu) : Prop where
  pc : WordAligned s.pc
  ifId : WordAligned s.ifId.pc
  idEx : WordAligned s.idEx.pc
  exMem : WordAligned s.exMem.pc
  memWb : WordAligned s.memWb.pc

/-- After reset all addresses are aligned. -/
theorem aligned_reset : Aligned reset := ⟨by decide, by decide, by decide, by decide, by decide⟩

/-- The base of `mtvec` is aligned. -/
theorem wordAligned_mtvecBase (s : RiscvCpu) : WordAligned (mtvecBase s) := wordAligned_append _

/-- The base of `stvec` is aligned. -/
theorem wordAligned_stvecBase (s : RiscvCpu) : WordAligned (stvecBase s) := wordAligned_append _

/-- The interrupt vector, direct or vectored. -/
theorem wordAligned_interruptVector (s : RiscvCpu) : WordAligned (interruptVector s) := by
  unfold interruptVector
  refine WordAligned.add ?_ ?_
  · split
    · exact wordAligned_stvecBase s
    · exact wordAligned_mtvecBase s
  · split
    · exact wordAligned_append _
    · rfl

/-- What EX is given is aligned. -/
theorem Aligned.alignedIn (h : Aligned s) : ExecutionUnit.AlignedIn (exIn s i) where
  pc := h.idEx
  mtvec := wordAligned_mtvecBase s
  stvec := wordAligned_stvecBase s
  interruptVector := wordAligned_interruptVector s

/-- A return to a misaligned `mepc` or `sepc`, with no page fault taken over it. -/
def returnsMisaligned (s : RiscvCpu) (i : CpuIn) : Bool :=
  !memStagePageFaultTaken s i && !instrStagePageFaultTaken s i &&
    (((exOut s i).mretInstruction && !decide (WordAligned s.csrFile.mepc)) ||
      ((exOut s i).sretInstruction && !decide (WordAligned s.csrFile.sepc)))

/-- **Every redirect is aligned**, such a return apart. -/
theorem Aligned.jump (h : Aligned s) (hr : returnsMisaligned s i = false)
    (hj : jSignal s i = true) : WordAligned (jump s i) := by
  unfold RiscvCpu.jump
  split
  · -- A page fault goes to a vector.
    unfold memStageJumpAddr
    split
    · exact wordAligned_stvecBase s
    · exact wordAligned_mtvecBase s
  rename_i hm
  split
  · unfold instrStageJumpAddr
    split
    · exact wordAligned_stvecBase s
    · exact wordAligned_mtvecBase s
  rename_i hf
  have hm := Bool.eq_false_of_not_eq_true hm
  have hf := Bool.eq_false_of_not_eq_true hf
  have hj : (exOut s i).jumpSignal = true := by simpa [jSignal, hm, hf] using hj
  simp only [returnsMisaligned, hm, hf, Bool.not_false, Bool.true_and, Bool.or_eq_false_iff] at hr
  -- Only a return takes its target from a register that software writes.
  rcases h.alignedIn.lands hj with hal | ⟨hret, haddr⟩ | ⟨hret, haddr⟩
  · exact hal
  · change WordAligned (executionUnit (exIn s i)).jumpAddr
    have hret : (exOut s i).mretInstruction = true := hret
    rw [haddr]
    change WordAligned s.csrFile.mepc
    simpa [hret] using hr.1
  · change WordAligned (executionUnit (exIn s i)).jumpAddr
    have hret : (exOut s i).sretInstruction = true := hret
    rw [haddr]
    change WordAligned s.csrFile.sepc
    simpa [hret] using hr.2

/-- **Step.** The addresses stay aligned. -/
theorem Aligned.next (h : Aligned s) (hr : returnsMisaligned s i = false) :
    Aligned (next s i) := by
  constructor
  case pc =>
    change WordAligned (nextPc s i)
    unfold nextPc
    split
    · rename_i hj
      -- Only a return can bring a misaligned target, and `hr` excludes it.
      exact h.jump hr hj
    split
    · exact h.pc
    · exact h.pc.add_four
  case ifId =>
    change WordAligned (IfId.next _ _ _ _ _ _).pc
    unfold IfId.next
    split
    · exact h.pc
    split
    · exact h.ifId
    · exact h.pc
  case idEx =>
    change WordAligned (IdEx.next _ _ _ _ _ _ _).pc
    unfold IdEx.next
    split
    · exact h.ifId
    split
    · exact h.idEx
    split <;> exact h.ifId
  case exMem =>
    change WordAligned (ExMem.next _ _ _ _).pc
    unfold ExMem.next
    split
    · exact h.idEx
    split
    · exact h.exMem
    · exact h.idEx
  case memWb =>
    change WordAligned (MemWb.next _ _).pc
    unfold MemWb.next
    split <;> exact h.exMem

/-- A return to a misaligned address misaligns the PC. -/
theorem not_wordAligned_of_returnsMisaligned (h : returnsMisaligned s i = true) :
    ¬ WordAligned (next s i).pc := by
  simp only [returnsMisaligned, Bool.and_eq_true, Bool.not_eq_true', Bool.or_eq_true,
    decide_eq_false_iff_not] at h
  obtain ⟨⟨hm, hf⟩, hret⟩ := h
  have hpc : (exOut s i).jumpSignal = true → (next s i).pc = (exOut s i).jumpAddr := by
    intro hj
    change nextPc s i = _
    rw [nextPc, jSignal, hj, Bool.or_true, if_pos rfl, RiscvCpu.jump, hm, hf]
    rfl
  rcases hret with ⟨hret, hmis⟩ | ⟨hret, hmis⟩
  · obtain ⟨hj, haddr⟩ := ExecutionUnit.jump_of_mret (x := exIn s i) hret
    rw [hpc hj]
    exact haddr ▸ hmis
  · obtain ⟨hj, haddr⟩ := ExecutionUnit.jump_of_sret (x := exIn s i) hret
    rw [hpc hj]
    exact haddr ▸ hmis

/-- A trap records an aligned address. -/
theorem Aligned.epc (h : Aligned s) {t : Trap} (ht : s.csrFile.action (csrIn s i) = .trap t) :
    WordAligned t.epc := by
  rcases of_action_trap ht with ⟨-, rfl⟩ | ⟨-, -, hepc⟩
  · change WordAligned (interruptPc s)
    unfold interruptPc
    split
    · exact h.idEx
    split
    · exact h.ifId
    · exact h.pc
  · rw [hepc, csrExceptionPc]
    split
    · exact h.exMem
    · exact h.idEx

/-- **Everything is aligned** up to cycle `n`: the PC, the pipeline, and what the traps taken
record. -/
structure AlignedThrough (ins : ℕ → CpuIn) (n : ℕ) : Prop where
  pipeline : ∀ m ≤ n, Aligned (run ins m)
  epc : ∀ m < n, ∀ t, actionAt ins m = .trap t → WordAligned t.epc

/-- **Alignment over runs.** The PC and all that is recorded of it stay word aligned through a run
exactly when no MRET or SRET returns to a misaligned `mepc` or `sepc`. -/
theorem run_alignedThrough_iff (ins : ℕ → CpuIn) (n : ℕ) :
    AlignedThrough ins n ↔ ∀ m < n, returnsMisaligned (run ins m) (ins m) = false := by
  constructor
  · intro h m hm
    by_contra hr
    have hnext : WordAligned (next (run ins m) (ins m)).pc := (h.pipeline (m + 1) hm).pc
    exact not_wordAligned_of_returnsMisaligned (Bool.eq_true_of_not_eq_false hr) hnext
  · intro h
    have hrun : ∀ m, m ≤ n → Aligned (run ins m) := by
      intro m
      induction m with
      | zero => exact fun _ => aligned_reset
      | succ m ih => exact fun hm => (ih (by omega)).next (h m (by omega))
    exact ⟨hrun, fun m hm t ht => (hrun m (by omega)).epc ht⟩

/-- The words of a run that writes 2 to `mepc` and returns. -/
def misalignedMretWords : List Word :=
  [0x34115073#32, 0x30200073#32, nopInstr,      -- csrwi mepc, 2
    0x30200073#32]                              -- mret

/-- The inputs of that run. -/
def misalignedMret (n : ℕ) : CpuIn := quietFetch (misalignedMretWords.getD n nopInstr)

/-- **MRET to a misaligned address.** The write of `mepc` keeps its low bits, and the MRET behind it
fetches from address 2. -/
theorem run_misalignedMret :
    (run misalignedMret 6).pc = 2#32 ∧ ¬ AlignedThrough misalignedMret 6 := by
  refine ⟨by decide +kernel, fun h => ?_⟩
  exact absurd (h.pipeline 6 (by omega)).pc (by decide +kernel)

end RiscvCpu

end Synapse32
