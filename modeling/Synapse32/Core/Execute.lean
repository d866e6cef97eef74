import Synapse32.Rtl.RiscvCpu

/-! # What the execute stage can ask for

The requests of one pass through `executionUnit`, read off once: which instruction raises
`mret_instruction`, `sret_instruction` and `wfi_instruction`, and what accompanies an exception.
Everything above cites these facts and never unfolds the opcode case again. -/

namespace Synapse32

/-! ## System requests -/

/-- The three requests that only a system instruction makes: MRET, SRET and WFI. -/
def ExOut.system (o : ExOut) : Bool × Bool × Bool :=
  (o.mretInstruction, o.sretInstruction, o.wfiInstruction)

/-- One of the execution unit's own exceptions is up: `synchronous_exception_taken`. -/
def ExOut.synchronous (o : ExOut) : Bool :=
  o.ecallException || o.ebreakException || o.breakpointTriggerException ||
    o.illegalInstructionException || o.instructionAddressMisalignedException ||
    o.loadAddressMisalignedException || o.storeAddressMisalignedException

namespace ExecutionUnit

/-- A legal MRET is in EX. -/
def legalMret (x : ExIn) : Bool :=
  x.opcode == 0b1110011#7 && x.instrId == .mret && x.privilegeMode == privM

/-- A legal SRET is in EX. -/
def legalSret (x : ExIn) : Bool :=
  x.opcode == 0b1110011#7 && x.instrId == .sret &&
    !(x.privilegeMode.ult privS || sretTsrViolation x)

/-- A legal WFI is in EX. -/
def legalWfi (x : ExIn) : Bool :=
  x.opcode == 0b1110011#7 && x.instrId == .wfi && !wfiTwViolation x

variable (x : ExIn) (o : ExOut)

/-- A trap makes no new system request. -/
@[simp] theorem trap_system (b : Bool) : (ExOut.trap x o b).system = o.system := rfl

/-- A breakpoint makes no new system request. -/
@[simp] theorem breakpointTrigger_system (a : Word) :
    (breakpointTrigger x o a).system = o.system := rfl

/-- A misaligned load makes no new system request. -/
@[simp] theorem loadMisaligned_system (a : Word) : (loadMisaligned x o a).system = o.system := rfl

/-- A misaligned store makes no new system request. -/
@[simp] theorem storeMisaligned_system (a : Word) :
    (storeMisaligned x o a).system = o.system := rfl

/-- An illegal instruction makes no new system request. -/
@[simp] theorem illegalInstruction_system : (illegalInstruction x o).system = o.system := rfl

/-- A jump makes no new system request. -/
@[simp] theorem jumpTo_system (a : Word) : (jumpTo x o a).system = o.system := by
  unfold jumpTo
  split <;> rfl

/-- A load makes no system request. -/
@[simp] theorem executeLoad_system : (executeLoad x).system = (false, false, false) := by
  unfold executeLoad
  dsimp only
  split
  · rfl
  · split <;> rfl

/-- A store makes no system request. -/
@[simp] theorem executeStore_system : (executeStore x).system = (false, false, false) := by
  unfold executeStore
  dsimp only
  split
  · rfl
  · split <;> rfl

/-- An atomic makes no system request. -/
@[simp] theorem executeAtomic_system : (executeAtomic x).system = (false, false, false) := by
  unfold executeAtomic
  dsimp only
  split
  · rfl
  · split
    · rfl
    · split <;> rfl

/-- A branch makes no system request. -/
@[simp] theorem executeBranch_system : (executeBranch x).system = (false, false, false) := by
  unfold executeBranch
  split
  · rw [jumpTo_system]; rfl
  · rfl

/-- A CSR instruction makes no system request. -/
@[simp] theorem executeCsr_system : (executeCsr x).system = (false, false, false) := by
  unfold executeCsr
  split
  · rfl
  · split <;> rfl

/-- Only the three legal system instructions raise a system request. -/
theorem executeSystem_system (h : x.opcode = 0b1110011#7) :
    (executeSystem x).system = (legalMret x, legalSret x, legalWfi x) := by
  have hop : (x.opcode == 0b1110011#7) = true := by simp [h]
  unfold executeSystem legalMret legalSret legalWfi
  rw [hop]
  cases hid : x.instrId
  case mret =>
    by_cases hp : x.privilegeMode = privM <;>
      simp [hp, ExOut.system, illegalInstruction, ExOut.trap, redirect]
  case sret =>
    cases hl : (x.privilegeMode.ult privS || sretTsrViolation x) <;>
      simp [ExOut.system, illegalInstruction, ExOut.trap, redirect]
  case wfi =>
    cases hl : wfiTwViolation x <;>
      simp [ExOut.system, illegalInstruction, ExOut.trap, redirect]
  case sfenceVma =>
    dsimp only
    split <;> rfl
  all_goals first | rfl | exact executeCsr_system x

/-- A SYSTEM opcode reaches `executeSystem`. -/
theorem executeOpcode_of_system (h : x.opcode = 0b1110011#7) :
    executeOpcode x = executeSystem x := by
  unfold executeOpcode
  rw [h]
  iterate 9 rw [if_neg (by decide)]
  rw [if_pos rfl]

/-- **Case analysis on the opcode.** -/
theorem executeOpcode_cases {P : ExOut → Prop}
    (alu : x.opcode = 0b0110011#7 ∨ x.opcode = 0b0010011#7 →
      P { execOutput := alu (rs1Value x) (rs2Value x) x.imm x.instrId })
    (load : x.opcode = 0b0000011#7 → P (executeLoad x))
    (store : x.opcode = 0b0100011#7 → P (executeStore x))
    (atomic : x.opcode = 0b0101111#7 → P (executeAtomic x))
    (branch : x.opcode = 0b1100011#7 → P (executeBranch x))
    (jal : x.opcode = 0b1101111#7 →
      P (jumpTo x { execOutput := x.pcInput + 4#32 } (x.pcInput + x.imm)))
    (jalr : x.opcode = 0b1100111#7 →
      P (jumpTo x { execOutput := x.pcInput + 4#32 } ((rs1Value x + x.imm) &&& 0xFFFFFFFE#32)))
    (lui : x.opcode = 0b0110111#7 → P { execOutput := x.imm })
    (auipc : x.opcode = 0b0010111#7 → P { execOutput := x.pcInput + x.imm })
    (system : x.opcode = 0b1110011#7 → P (executeSystem x))
    (fenceI : x.opcode = 0b0001111#7 → x.instrId = .fenceI → P (redirect {} (x.pcInput + 4#32)))
    (other : P {}) : P (executeOpcode x) := by
  unfold executeOpcode
  -- One hypothesis for each test of the opcode, in the order in which EX makes them.
  refine iteInduction alu fun _ => ?_
  refine iteInduction load fun _ => ?_
  refine iteInduction store fun _ => ?_
  refine iteInduction atomic fun _ => ?_
  refine iteInduction branch fun _ => ?_
  refine iteInduction jal fun _ => ?_
  refine iteInduction jalr fun _ => ?_
  refine iteInduction lui fun _ => ?_
  refine iteInduction auipc fun _ => ?_
  refine iteInduction system fun _ => ?_
  exact iteInduction (fun h => iteInduction (fenceI h) fun _ => other) fun _ => other

/-- **The system requests of the instruction in EX.** -/
theorem executeOpcode_system :
    (executeOpcode x).system = (legalMret x, legalSret x, legalWfi x) := by
  have hother : x.opcode ≠ 0b1110011#7 →
      (legalMret x, legalSret x, legalWfi x) = (false, false, false) := by
    intro h
    have hop : (x.opcode == 0b1110011#7) = false := beq_false_of_ne h
    simp only [legalMret, legalSret, legalWfi, hop, Bool.false_and]
  by_cases h : x.opcode = 0b1110011#7
  · rw [executeOpcode_of_system x h, executeSystem_system x h]
  · rw [hother h]
    refine executeOpcode_cases x (P := fun o => o.system = (false, false, false))
      (fun _ => rfl) (fun _ => executeLoad_system x) (fun _ => executeStore_system x)
      (fun _ => executeAtomic_system x) (fun _ => executeBranch_system x)
      (fun _ => jumpTo_system x _ _) (fun _ => jumpTo_system x _ _) (fun _ => rfl) (fun _ => rfl)
      (fun hsys => absurd hsys h) (fun _ _ => rfl) rfl

/-! ## Exceptions -/

/-- The trap vector an exception of EX selects. -/
def trapVector (toSupervisor : Bool) : Word := if toSupervisor then x.stvec else x.mtvec

/-- **An answer of the instruction in EX**, no interrupt among it: a flush always comes with a
redirect, and an exception redirects to the vector it selects and makes no system request. -/
structure Answer (o : ExOut) : Prop where
  interruptTaken : o.interruptTaken = false
  flush : o.flushPipeline = o.jumpSignal
  jump : o.synchronous = true → o.jumpSignal = true
  vector : o.synchronous = true → o.jumpAddr = trapVector x o.trapToSupervisor
  system : o.synchronous = true → o.system = (false, false, false)

/-- An output without exception, flush or redirect. -/
theorem answer_plain (v a : Word) : Answer x { execOutput := v, memAddr := a } :=
  ⟨rfl, rfl, nofun, nofun, nofun⟩

/-- The output of an EX that is held. -/
theorem answer_held (v a m t : Word) :
    Answer x { execOutput := v, jumpAddr := a, memAddr := m, exceptionTval := t } :=
  ⟨rfl, rfl, nofun, nofun, nofun⟩

/-- A redirect from an output without exception. -/
theorem answer_redirect (v target : Word) : Answer x (redirect { execOutput := v } target) :=
  ⟨rfl, rfl, nofun, nofun, nofun⟩

/-- The traps, each over an output that carries only data. -/
theorem answer_illegal (o : ExOut) (hi : o.interruptTaken = false)
    (hs : o.system = (false, false, false)) : Answer x (illegalInstruction x o) :=
  ⟨hi, rfl, fun _ => rfl, fun _ => rfl, fun _ => hs⟩

/-- A breakpoint is an answer. -/
theorem answer_breakpointTrigger (o : ExOut) (a : Word) (hi : o.interruptTaken = false)
    (hs : o.system = (false, false, false)) : Answer x (breakpointTrigger x o a) :=
  ⟨hi, rfl, fun _ => rfl, fun _ => rfl, fun _ => hs⟩

/-- A misaligned load is an answer. -/
theorem answer_loadMisaligned (o : ExOut) (a : Word) (hi : o.interruptTaken = false)
    (hs : o.system = (false, false, false)) : Answer x (loadMisaligned x o a) :=
  ⟨hi, rfl, fun _ => rfl, fun _ => rfl, fun _ => hs⟩

/-- A misaligned store is an answer. -/
theorem answer_storeMisaligned (o : ExOut) (a : Word) (hi : o.interruptTaken = false)
    (hs : o.system = (false, false, false)) : Answer x (storeMisaligned x o a) :=
  ⟨hi, rfl, fun _ => rfl, fun _ => rfl, fun _ => hs⟩

/-- A jump is an answer, also one to a misaligned target. -/
theorem answer_jumpTo (v target : Word) : Answer x (jumpTo x { execOutput := v } target) := by
  unfold jumpTo
  split
  · exact ⟨rfl, rfl, fun _ => rfl, fun _ => rfl, fun _ => rfl⟩
  · exact answer_redirect x v target

/-- A load answers. -/
theorem answer_executeLoad : Answer x (executeLoad x) := by
  unfold executeLoad
  dsimp only
  split
  · exact answer_breakpointTrigger x _ _ rfl rfl
  · split
    · exact answer_loadMisaligned x _ _ rfl rfl
    · exact answer_plain x _ _

/-- A store answers. -/
theorem answer_executeStore : Answer x (executeStore x) := by
  unfold executeStore
  dsimp only
  split
  · exact answer_breakpointTrigger x _ _ rfl rfl
  · split
    · exact answer_storeMisaligned x _ _ rfl rfl
    · exact answer_plain x _ _

/-- An atomic answers. -/
theorem answer_executeAtomic : Answer x (executeAtomic x) := by
  unfold executeAtomic
  dsimp only
  split
  · exact answer_breakpointTrigger x _ _ rfl rfl
  · split
    · exact answer_loadMisaligned x _ _ rfl rfl
    · split
      · exact answer_storeMisaligned x _ _ rfl rfl
      · exact answer_plain x _ _

/-- A branch answers. -/
theorem answer_executeBranch : Answer x (executeBranch x) := by
  unfold executeBranch
  split
  · exact answer_jumpTo x _ _
  · exact answer_plain x _ _

/-- A CSR instruction answers. -/
theorem answer_executeCsr : Answer x (executeCsr x) := by
  unfold executeCsr
  split
  · exact answer_illegal x _ rfl rfl
  · split
    · exact answer_redirect x _ _
    · exact answer_plain x _ _

/-- A system instruction answers. -/
theorem answer_executeSystem : Answer x (executeSystem x) := by
  unfold executeSystem
  split
  · split
    · exact answer_illegal x _ rfl rfl
    · exact ⟨rfl, rfl, nofun, nofun, nofun⟩
  · split
    · exact answer_illegal x _ rfl rfl
    · exact ⟨rfl, rfl, nofun, nofun, nofun⟩
  · exact ⟨rfl, rfl, fun _ => rfl, fun _ => rfl, fun _ => rfl⟩
  · exact ⟨rfl, rfl, fun _ => rfl, fun _ => rfl, fun _ => rfl⟩
  · split
    · exact answer_illegal x _ rfl rfl
    · exact ⟨rfl, rfl, nofun, nofun, nofun⟩
  · split
    · exact answer_illegal x _ rfl rfl
    · exact answer_redirect x _ _
  · exact answer_executeCsr x

/-- **Every opcode gives an answer.** -/
theorem answer_executeOpcode : Answer x (executeOpcode x) :=
  executeOpcode_cases x (fun _ => answer_plain x _ _) (fun _ => answer_executeLoad x)
    (fun _ => answer_executeStore x) (fun _ => answer_executeAtomic x)
    (fun _ => answer_executeBranch x) (fun _ => answer_jumpTo x _ _)
    (fun _ => answer_jumpTo x _ _) (fun _ => answer_plain x _ _) (fun _ => answer_plain x _ _)
    (fun _ => answer_executeSystem x) (fun _ _ => answer_redirect x _ _) (answer_plain x _ _)

/-- Without an interrupt the whole unit gives an answer. -/
theorem answer_ungated (h : x.interruptPending = false) : Answer x (ungated x) := by
  unfold ungated
  rw [h]
  simp only [Bool.false_eq_true, if_false]
  split
  · exact answer_breakpointTrigger x _ _ rfl rfl
  · split
    · exact answer_illegal x _ rfl rfl
    · exact answer_executeOpcode x

/-- Holding EX back keeps an answer one. -/
theorem answer_gate (b : Bool) (h : Answer x o) : Answer x (gate b o) := by
  cases b
  · exact ⟨rfl, rfl, nofun, nofun, nofun⟩
  · exact h

/-- Reporting the instruction word keeps an answer one. -/
theorem answer_reportInstr (w : Word) (h : Answer x o) : Answer x (reportInstr w o) := by
  unfold reportInstr
  split
  · exact ⟨h.interruptTaken, h.flush, h.jump, h.vector, h.system⟩
  · exact h

end ExecutionUnit

open ExecutionUnit

/-- **Without an interrupt, EX gives an answer.** -/
theorem executionUnit_answer {x : ExIn} (h : x.interruptPending = false) :
    Answer x (executionUnit x) :=
  answer_reportInstr x _ _ (answer_gate x _ _ (answer_ungated x h))

/-- **An interrupt in an active EX** is all that EX asks for: the redirect to its vector. -/
theorem executionUnit_interrupt {x : ExIn} (h : x.interruptPending = true)
    (ha : x.stageEnable = true) :
    executionUnit x =
      { redirect {} x.interruptVector with
        trapToSupervisor := x.interruptToSupervisor, interruptTaken := true } := by
  unfold executionUnit ungated
  rw [h, ha]
  rfl

/-- A held EX asks for nothing. -/
theorem executionUnit_held {x : ExIn} (ha : x.stageEnable = false) :
    ∃ v a m t, executionUnit x =
      { execOutput := v, jumpAddr := a, memAddr := m, exceptionTval := t } := by
  unfold executionUnit
  rw [ha]
  exact ⟨_, _, _, _, rfl⟩

/-- EX gets to the instruction's own opcode: it is not held, and neither an interrupt nor an
execute trigger comes first. -/
def ExecutionUnit.reachesOpcode (x : ExIn) : Bool :=
  x.stageEnable && !x.interruptPending && !executeTriggerHit x

/-- **The system requests of EX**: those of a legal system instruction that EX gets to. -/
theorem executionUnit_system (x : ExIn) :
    (executionUnit x).system =
      (reachesOpcode x && legalMret x, reachesOpcode x && legalSret x,
        reachesOpcode x && legalWfi x) := by
  have hreport : ∀ o : ExOut, (reportInstr x.instr o).system = o.system := by
    intro o
    unfold reportInstr
    split <;> rfl
  unfold executionUnit reachesOpcode
  rw [hreport]
  -- An empty stage, an interrupt and a trigger keep the opcode out.
  cases ha : x.stageEnable
  · rfl
  cases hp : x.interruptPending
  · cases ht : executeTriggerHit x
    · have hgate : gate true (ungated x) = ungated x := rfl
      rw [hgate]
      unfold ungated
      rw [hp, ht]
      simp only [Bool.false_eq_true, if_false, Bool.not_false, Bool.and_self, Bool.true_and]
      split
      · rename_i hv
        have hid : x.instrId = .invalid := hv.2
        simp [legalMret, legalSret, legalWfi, hid, illegalInstruction, ExOut.trap, ExOut.system]
      · exact executeOpcode_system x
    · unfold gate ungated
      rw [hp, ht]
      rfl
  · unfold gate ungated
    rw [hp]
    rfl

/-- The MRET request. -/
theorem executionUnit_mret (x : ExIn) :
    (executionUnit x).mretInstruction = (reachesOpcode x && legalMret x) :=
  congrArg Prod.fst (executionUnit_system x)

/-- The SRET request. -/
theorem executionUnit_sret (x : ExIn) :
    (executionUnit x).sretInstruction = (reachesOpcode x && legalSret x) :=
  congrArg (fun p => p.2.1) (executionUnit_system x)

/-- The WFI request. -/
theorem executionUnit_wfi (x : ExIn) :
    (executionUnit x).wfiInstruction = (reachesOpcode x && legalWfi x) :=
  congrArg (fun p => p.2.2) (executionUnit_system x)

end Synapse32
