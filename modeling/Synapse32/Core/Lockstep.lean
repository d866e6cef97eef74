import Synapse32.Core.Simulation
import Synapse32.Core.Privilege

/-! # The pipeline in step with the sequential instruction set

The relation between the core, its ledger and a sequential run of the program: the `k`-th
instruction to leave EX is the `k`-th of the run, with its operands. One cycle keeps the relation,
whatever the memory interface does in it. -/

namespace Synapse32

open ExecutionUnit RiscvCpu

/-- A CSR file in which nothing traps: M-mode with no interrupt enabled and no trigger armed. -/
structure CsrFile.Quiet (f : CsrFile) : Prop where
  mode : f.privilegeMode = privM
  mie : f.mie = 0#32
  trigger : ∀ t, f.triggerCtl t = 0#7

namespace Ledger

variable {s : RiscvCpu} {i : CpuIn} {l : Ledger}

/-- The number of instructions that have left EX. -/
def position (l : Ledger) : ℕ := l.left.length + l.inMem.toList.length

/-- Nothing leaves an empty MEM. -/
theorem left_of_empty (hw : memWait s i = false) (he : l.inMem = none) :
    (l.next s i).left = l.left := by
  rw [left_of_move hw, he]
  exact List.append_nil _

/-- An instruction leaves MEM. -/
theorem left_of_depart (hw : memWait s i = false) {e : Entry} (he : l.inMem = some e) :
    (l.next s i).left = l.left ++ [depart s i e] := by
  rw [left_of_move hw, he]
  rfl

/-- When MEM moves, every instruction that had left EX has left MEM. -/
theorem left_length_of_move (hw : memWait s i = false) :
    (l.next s i).left.length = l.position := by
  rw [left_of_move hw, List.length_append, position]
  cases l.inMem <;> rfl

end Ledger

namespace RiscvCpu

/-- **The core is in step with the run `r`.** The instructions that have left MEM, the one in MEM
and the one in EX are consecutive instructions of the run, with their operands and effects; `pend`
is the address of the fetch that is out. -/
structure Sim {code : Word → Word} (r : SeqRun code) (s : RiscvCpu) (l : Ledger)
    (pend : Option Word) : Prop where
  front : FrontInv s l.programPc
  mem : MemInv s l
  phase : PhaseInv s l
  csr : s.csrFile.Quiet
  awake : s.wfiActive = false
  idFault : s.ifId.instrPageFault = false
  exFault : s.idEx.instrPageFault = false
  idWord : s.ifId.instructionValid = true → s.ifId.instruction = code s.ifId.pc
  exWord : s.idEx.instrValid = true → s.idEx.instr = code s.idEx.pc
  fetch : ∀ a, pend = some a → s.fetchOutstanding = true ∧ (s.fetchDiscard = false → a = s.pc)
  pc : l.programPc = (r.hart l.position).pc
  slot : ∀ e, l.inMem = some e →
    e.slot = (r.instr l.left.length).slot (r.hart l.left.length)
  amo : s.amoWritePhase = true → s.amoReadData =
    loadValue (r.hart l.left.length).mem s.exMem.memAddr.toNat 0b010#3
  reserved : s.atomicLsu.reserved = (r.hart l.left.length).reserved
  x0 : s.registerFile 0#5 = 0#32
  regs : s.registerFile.applyWrites s.memWb.write = (r.hart l.left.length).regs
  rs1 : s.idEx.instrValid = true →
    resolve s s.idEx.dec.rs1 s.idEx.dec.rs1Valid s.idEx.rs1Value =
      operand (r.hart l.position).regs s.idEx.dec.rs1 s.idEx.dec.rs1Valid
  rs2 : s.idEx.instrValid = true →
    resolve s s.idEx.dec.rs2 s.idEx.dec.rs2Valid s.idEx.rs2Value =
      operand (r.hart l.position).regs s.idEx.dec.rs2 s.idEx.dec.rs2Valid
  accesses : l.left.flatMap (·.accesses) = r.accesses l.left.length
  writes : l.left.flatMap (·.out.write) = r.writes l.left.length

/-- What the memory interface does in one cycle. -/
structure Cycle {code : Word → Word} (r : SeqRun code) (s : RiscvCpu) (l : Ledger)
    (pend : Option Word) (i : CpuIn) : Prop where
  noFault : i.loadPageFaultIn = false ∧ i.storePageFaultIn = false ∧ i.instrPageFaultIn = false
  grant : i.instrGntIn = true → pend = none
  fetch : i.instrRvalidIn = true → ∃ a, i.instrIn = code a ∧
    (if i.instrGntIn then some s.pc else pend) = some a
  data : i.dataRvalidIn = true → memRdEn s = true → memReadDataEffective s i =
    loadValue (r.hart l.left.length).mem (readAddr s).toNat (loadType s)

variable {code : Word → Word} {r : SeqRun code} {s : RiscvCpu} {l : Ledger} {pend : Option Word}
  {i : CpuIn}

/-! ## Nothing traps -/

/-- No page fault is taken. -/
theorem Sim.noPageFault (h : Sim r s l pend) (hc : Cycle r s l pend i) :
    memStagePageFaultTaken s i = false ∧ instrStagePageFaultTaken s i = false := by
  obtain ⟨hl, hs, -⟩ := hc.noFault
  constructor
  · simp [memStagePageFaultTaken, memStageLoadPageFault, memStageStorePageFault, hl, hs]
  · simp [instrStagePageFaultTaken, h.exFault]

/-- No interrupt is pending. -/
theorem Sim.noInterrupt (h : Sim r s l pend) : (interrupt s).interruptPending = false := by
  unfold interrupt interruptController
  rw [h.csr.mie]
  simp

/-- No trigger is armed. -/
theorem Sim.noTrigger (h : Sim r s l pend) (t : Fin 4) : triggerEnabled s t = false := by
  unfold triggerEnabled triggerEnabledInMode
  rw [h.csr.trigger t]
  simp

/-- The core is awake. -/
theorem Sim.wfiStall (h : Sim r s l pend) : RiscvCpu.wfiStall s = false := by
  rw [RiscvCpu.wfiStall, h.awake, Bool.false_and]

/-- **EX holds the next instruction of the run.** -/
theorem Sim.decoded (h : Sim r s l pend) (hv : s.idEx.instrValid = true) :
    s.idEx.dec = (r.instr l.position).decoded ∧ s.idEx.pc = (r.hart l.position).pc := by
  have hpc : s.idEx.pc = (r.hart l.position).pc := (h.front.ex hv).trans h.pc
  refine ⟨?_, hpc⟩
  rw [h.front.exDec hv, h.exWord hv, hpc, r.fetch, decoder_encode]

/-- **EX carries the next instruction of the run**, with the operands of its hart. -/
theorem Sim.carries (h : Sim r s l pend) (hv : s.idEx.instrValid = true)
    (ha : exStageActive s i = true) :
    Carries (exIn s i) (r.instr l.position) (r.hart l.position) := by
  obtain ⟨hdec, hpc⟩ := h.decoded hv
  constructor
  · intro hrs
    rw [rs1Value_exIn, h.rs1 hv, hdec, operand, hrs, if_pos rfl]
  · rw [rs2Value_exIn, h.rs2 hv, hdec]
    rfl
  · exact congrArg Decoded.imm hdec
  · exact congrArg Decoded.opcode hdec
  · exact congrArg Decoded.instrId hdec
  · exact hpc
  · exact ha
  · change ((interrupt s).interruptPending && _ && _) = false
    rw [h.noInterrupt]
    rfl
  · exact h.noTrigger

/-- An active EX executes its instruction. -/
theorem Sim.executes (h : Sim r s l pend) (hv : s.idEx.instrValid = true)
    (ha : exStageActive s i = true) :
    Executes (r.instr l.position) (r.hart l.position) (r.outcome l.position) (exOut s i) :=
  (h.carries hv ha).executes (r.exec _)

/-- **EX takes no exception, no interrupt and no system action.** -/
theorem Sim.quiet (h : Sim r s l pend) :
    synchronousExceptionTaken s i = false ∧ interruptTakenQualified s i = false ∧
      (exOut s i).system = (false, false, false) := by
  have hint : interruptTakenQualified s i = false := by
    by_contra hint
    have hp : (exIn s i).interruptPending = true := by
      by_contra hp
      have hans := executionUnit_answer (Bool.eq_false_of_not_eq_true hp)
      rw [interruptTakenQualified, exOut, hans.interruptTaken] at hint
      exact hint rfl
    have hp' : ((interrupt s).interruptPending && !memStagePageFaultTaken s i &&
        !instrStagePageFaultTaken s i) = true := hp
    rw [h.noInterrupt] at hp'
    exact Bool.false_ne_true hp'
  cases hv : s.idEx.instrValid
  · obtain ⟨-, hs, hsys⟩ := h.front.jumpSignal_of_bubble (i := i) hv hint
    exact ⟨hs, hint, hsys⟩
  cases ha : exStageActive s i
  · obtain ⟨-, hs, hsys⟩ := exOut_of_held ha
    exact ⟨hs, hint, hsys⟩
  · have hex := h.executes hv ha
    exact ⟨hex.synchronous, hint, hex.system⟩

/-- Nothing squashes the instruction in EX. -/
theorem Sim.exMemFlush (h : Sim r s l pend) (hc : Cycle r s l pend i) :
    RiscvCpu.exMemFlush s i = false := by
  obtain ⟨hm, hf⟩ := h.noPageFault hc
  obtain ⟨hs, hint, -⟩ := h.quiet
  rw [RiscvCpu.exMemFlush, hm, hf, hs, hint]
  rfl

/-- The instruction in EX leaves as soon as EX is free. -/
theorem Sim.issues (h : Sim r s l pend) (hc : Cycle r s l pend i) :
    RiscvCpu.issues s i = (s.idEx.instrValid && exStageActive s i) := by
  rw [RiscvCpu.issues, h.exMemFlush hc, Bool.not_false, Bool.and_true]

/-- No instruction of the set writes a CSR. -/
theorem csrWriteEnable_decoded (i : Instr) (v : Word) (a : BitVec 5) (d d' : Word) :
    (csrExec i.decoded.instrId v a d d').csrWriteEnable = false := by
  cases i
  case op o _ _ _ => cases o <;> rfl
  case opImm o _ _ _ => cases o <;> rfl
  case shift o _ _ _ => cases o <;> rfl
  case load o _ _ _ => cases o <;> rfl
  case store o _ _ _ => cases o <;> rfl
  case branch o _ _ _ => cases o <;> rfl
  case amo o _ _ _ _ => cases o <;> rfl
  case fence bits rd rs1 =>
    change (csrExec (if _ then InstrId.pause else InstrId.fence) _ _ _ _).csrWriteEnable = false
    split <;> rfl
  all_goals rfl

/-- FENCE.I is not of the set. -/
theorem not_fenceI (i : Instr) : i.decoded.instrId ≠ .fenceI := by
  intro h
  cases i
  case op o _ _ _ => cases o <;> cases h
  case opImm o _ _ _ => cases o <;> cases h
  case shift o _ _ _ => cases o <;> cases h
  case load o _ _ _ => cases o <;> cases h
  case store o _ _ _ => cases o <;> cases h
  case branch o _ _ _ => cases o <;> cases h
  case amo o _ _ _ _ => cases o <;> cases h
  case fence bits rd rs1 =>
    change (if _ then InstrId.pause else InstrId.fence) = _ at h
    split at h <;> cases h
  all_goals cases h

/-- **Nothing acts on the CSR file.** -/
theorem Sim.action (h : Sim r s l pend) (hc : Cycle r s l pend i) :
    s.csrFile.action (csrIn s i) = .none := by
  cases hi : RiscvCpu.issues s i
  · exact action_of_not_issues h.front hi (h.exMemFlush hc)
  · obtain ⟨-, -, hsys⟩ := h.quiet
    have hv : s.idEx.instrValid = true := by
      rw [h.issues hc, Bool.and_eq_true] at hi
      exact hi.1
    have hm : (exOut s i).mretInstruction = false := congrArg Prod.fst hsys
    have hs : (exOut s i).sretInstruction = false := congrArg (fun p => p.2.1) hsys
    have hw : csrWriteEnable s i = false := by
      change (csrExec s.idEx.dec.instrId _ _ _ _).csrWriteEnable = false
      rw [(h.decoded hv).1]
      exact csrWriteEnable_decoded _ _ _ _ _
    rw [action_of_issues hi, csrEffect, hm, hs, hw]
    rfl

/-- The CSR file stays quiet. -/
theorem Sim.csr_next (h : Sim r s l pend) (hc : Cycle r s l pend i) :
    (next s i).csrFile.Quiet := by
  have hnext : (next s i).csrFile = s.csrFile.tick (csrIn s i) := by
    change s.csrFile.next (csrIn s i) = _
    rw [CsrFile.next_eq_perform, h.action hc]
    rfl
  rw [hnext]
  exact ⟨h.csr.mode, h.csr.mie, h.csr.trigger⟩

/-- The core stays awake. -/
theorem Sim.awake_next (h : Sim r s l pend) :
    (next s i).wfiActive = false := by
  obtain ⟨-, -, hsys⟩ := h.quiet
  have hw : (exOut s i).wfiInstruction = false := congrArg (fun p => p.2.2) hsys
  change nextWfiActive s i = false
  rw [nextWfiActive, hw, h.awake]
  simp

/-! ## Instructions that leave EX and MEM -/

/-- One more instruction has left EX when one issues. -/
theorem position_next :
    (l.next s i).position = l.position + (RiscvCpu.issues s i).toNat := by
  unfold Ledger.position
  cases hw : memWait s i
  · rw [Ledger.left_of_move hw, Ledger.inMem_of_move hw, List.length_append]
    have hin : (l.inMem.map (depart s i)).toList.length = l.inMem.toList.length := by
      cases l.inMem <;> rfl
    rw [hin]
    cases RiscvCpu.issues s i <;> rfl
  · have hi : RiscvCpu.issues s i = false := by
      rw [RiscvCpu.issues, exStageActive, hw]
      simp
    rw [Ledger.left_of_wait hw, Ledger.inMem_of_wait hw, hi]
    cases l.inMem <;> rfl

/-- **The instruction that leaves EX is the next of the run**, and the PC goes on behind it. -/
theorem Sim.issue (h : Sim r s l pend) (hc : Cycle r s l pend i)
    (hi : RiscvCpu.issues s i = true) :
    executeOut s i = (r.instr l.position).slot (r.hart l.position) ∧
      nextProgramPc s i l.programPc = (r.hart (l.position + 1)).pc := by
  have hi' := hi
  rw [h.issues hc, Bool.and_eq_true] at hi
  obtain ⟨hv, ha⟩ := hi
  obtain ⟨hdec, hpc⟩ := h.decoded hv
  have hcar := h.carries hv ha
  have hex := h.executes hv ha
  constructor
  · simp only [executeOut, Instr.slot, hdec, hpc, hcar.rs2, hex.memAddr, hex.execOutput]
  · obtain ⟨hm, hf⟩ := h.noPageFault hc
    have hj : jSignal s i = (exOut s i).jumpSignal := by rw [jSignal, hm, hf]; rfl
    have hjump : jump s i = (exOut s i).jumpAddr := by rw [jump, hm, hf]; rfl
    rw [nextProgramPc, hj, hjump, hi', if_pos rfl, r.after, h.pc]
    exact hex.next

/-- Nothing redirects while no instruction leaves EX. -/
theorem Sim.noJump (h : Sim r s l pend) (hc : Cycle r s l pend i)
    (hi : RiscvCpu.issues s i = false) : jSignal s i = false := by
  by_contra hj
  have := h.front.issues_of_jSignal (Bool.eq_true_of_not_eq_false hj) (h.exMemFlush hc)
  exact Bool.false_ne_true (hi.symm.trans this)

/-- The PC of the next instruction of the run. -/
theorem Sim.pc_next (h : Sim r s l pend) (hc : Cycle r s l pend i) :
    (l.next s i).programPc = (r.hart (l.next s i).position).pc := by
  rw [position_next]
  change nextProgramPc s i l.programPc = _
  cases hi : RiscvCpu.issues s i
  · rw [nextProgramPc, h.noJump hc hi, hi]
    exact h.pc
  · exact (h.issue hc hi).2

/-- An SC that does not trap is aligned. -/
theorem aligned_of_sc {i : Instr} {h : Hart} {o : Outcome} (he : i.exec h = some o)
    (hid : i.decoded.instrId = .scW) : AtomicLsu.wordAligned (i.memAddr h) = true := by
  cases i
  case sc aqrl rd rs1 rs2 =>
    change (if (h.regs rs1).toNat % 4 = 0 then _ else none) = _ at he
    split at he
    · rename_i hal
      have hlow : ((h.regs rs1).extractLsb' 0 2 != 0#2) = false :=
        (low_two _).trans (decide_eq_false (not_not_intro hal))
      change ((h.regs rs1).extractLsb' 0 2 == 0#2) = true
      simpa using hlow
    · exact absurd he.symm (Option.some_ne_none _)
  case op o _ _ _ => cases o <;> cases hid
  case opImm o _ _ _ => cases o <;> cases hid
  case shift o _ _ _ => cases o <;> cases hid
  case load o _ _ _ => cases o <;> cases hid
  case store o _ _ _ => cases o <;> cases hid
  case branch o _ _ _ => cases o <;> cases hid
  case amo o _ _ _ _ => cases o <;> cases hid
  case fence bits rd rs1 =>
    change (if _ then InstrId.pause else InstrId.fence) = _ at hid
    split at hid <;> cases hid
  all_goals cases hid

/-- An SC in MEM succeeds if its reservation stands. -/
theorem scSuccess_eq {i : Instr} {h : Hart} {o : Outcome} (he : i.exec h = some o)
    (hslot : s.exMem = i.slot h) (hres : s.atomicLsu.reserved = h.reserved)
    (hsc : (i.decoded.instrId == .scW) = true) :
    scSuccess s = decide (h.reserved = some (i.memAddr h)) := by
  have haddr : s.exMem.memAddr = i.memAddr h := by rw [hslot]; rfl
  have hid : s.exMem.instrId = i.decoded.instrId := by rw [hslot]; rfl
  have hal := aligned_of_sc he (beq_iff_eq.mp hsc)
  rw [← haddr] at hal
  rw [← hid] at hsc
  rw [← haddr, ← hres, scSuccess, AtomicLsu.scSuccess, hsc, hal, AtomicLsu.reserved]
  cases s.atomicLsu.lrValid
  · exact (decide_eq_false (Option.some_ne_none _).symm).symm
  · rw [if_pos rfl, Bool.eq_iff_iff, decide_eq_true_eq, Option.some.injEq]
    exact beq_iff_eq

/-- What MEM gives to its instruction: the memory's value to a load, and to an SC whether the
reservation stands. -/
theorem Sim.answers (h : Sim r s l pend) (hc : Cycle r s l pend i) {e : Entry}
    (he : l.inMem = some e) (hw : memWait s i = false) :
    Instr.Answers (r.instr l.left.length) (r.hart l.left.length) (scSuccess s)
      (amoOldWord s i) := by
  obtain ⟨hf, -⟩ := h.noPageFault hc
  have hslot : s.exMem = (r.instr l.left.length).slot (r.hart l.left.length) :=
    (h.mem.slot e he).trans (h.slot e he)
  refine ⟨fun hl => ?_, scSuccess_eq (r.exec _) hslot h.reserved⟩
  have haddr : s.exMem.memAddr = (r.instr l.left.length).memAddr (r.hart l.left.length) := by
    rw [hslot]
    rfl
  have hid : s.exMem.instrId = (r.instr l.left.length).decoded.instrId := by
    rw [hslot]
    rfl
  rw [← hid] at hl
  rw [← hslot, ← haddr, amoOldWord]
  have htype : loadType s = s.exMem.readType := rfl
  cases ha : isAmoW s
  · have hp : s.amoWritePhase = false := h.phase.not_write_of_not_amo h.mem ha
    -- A load or an LR has its answer in this cycle.
    have hrd := memRdEn_of_load hl ha
    obtain ⟨hrv, -⟩ := answered_of_move hw hf (by rw [hrd, Bool.true_or])
    rw [hp, if_neg Bool.false_ne_true, hc.data hrv hrd, htype]
    rfl
  · -- An AMO has had it in an earlier one.
    obtain ⟨hp, -⟩ := amo_of_move ha hw hf
    have hamo : s.exMem.instrId.isAmo = true := ha
    have hread : s.exMem.readType = 0b010#3 := by
      rw [ExMem.readType, hamo, Bool.or_true, if_pos rfl]
    rw [if_pos hp, h.amo hp, hread]

/-- **An instruction that leaves MEM has done what the run's instruction does.** -/
theorem Sim.depart (h : Sim r s l pend) (hc : Cycle r s l pend i) {e : Entry}
    (he : l.inMem = some e) (hw : memWait s i = false) :
    (RiscvCpu.depart s i e).accesses = (r.outcome l.left.length).accesses ∧
      (RiscvCpu.depart s i e).out.write = (r.outcome l.left.length).writes ∧
      (next s i).atomicLsu.reserved = (r.outcome l.left.length).reserved := by
  obtain ⟨hf, -⟩ := h.noPageFault hc
  have hag := Instr.agrees (r.exec _) (h.answers hc he hw)
  have hslot := h.slot e he
  obtain ⟨hrd, hwr, -⟩ := out_depart h.mem he hf
  obtain ⟨hacc, hval⟩ := depart_eq h.phase h.mem he hw hf
  refine ⟨?_, ?_, ?_⟩
  · rw [hacc, hslot]
    exact hag.accesses
  · rw [← hag.writes, MemWb.write, hwr, hrd, hval, hslot]
  · rw [← hag.reserved _ h.reserved, ← hslot, ← h.mem.slot e he]
    change (s.atomicLsu.next _ _ (memWait s i) _ _).reserved = _
    rw [hw]
    rfl

/-! ## One cycle of MEM and write-back -/

/-- The accesses stay those of the run. -/
theorem Sim.accesses_next (h : Sim r s l pend) (hc : Cycle r s l pend i) :
    (l.next s i).left.flatMap (·.accesses) = r.accesses (l.next s i).left.length := by
  cases hw : memWait s i
  · cases he : l.inMem with
    | none =>
      rw [Ledger.left_of_empty hw he]
      exact h.accesses
    | some e =>
      obtain ⟨hacc, -, -⟩ := h.depart hc he hw
      rw [Ledger.left_of_depart hw he, List.flatMap_append, h.accesses, List.length_append,
        List.length_singleton, SeqRun.accesses_succ, List.flatMap_singleton, hacc]
  · rw [Ledger.left_of_wait hw]
    exact h.accesses

/-- The register writes stay those of the run. -/
theorem Sim.writes_next (h : Sim r s l pend) (hc : Cycle r s l pend i) :
    (l.next s i).left.flatMap (·.out.write) = r.writes (l.next s i).left.length := by
  cases hw : memWait s i
  · cases he : l.inMem with
    | none =>
      rw [Ledger.left_of_empty hw he]
      exact h.writes
    | some e =>
      obtain ⟨-, hwr, -⟩ := h.depart hc he hw
      rw [Ledger.left_of_depart hw he, List.flatMap_append, h.writes, List.length_append,
        List.length_singleton, SeqRun.writes_succ, List.flatMap_singleton, hwr]
  · rw [Ledger.left_of_wait hw]
    exact h.writes

/-- The reservation stays that of the run. -/
theorem Sim.reserved_next (h : Sim r s l pend) (hc : Cycle r s l pend i) :
    (next s i).atomicLsu.reserved = (r.hart (l.next s i).left.length).reserved := by
  have hnext : (next s i).atomicLsu = s.atomicLsu.next s.exMem.instrId s.exMem.memAddr
      (memWait s i) (exMemStdStoreReq s) s.exMem.memAddr := rfl
  cases hw : memWait s i
  · cases he : l.inMem with
    | none =>
      rw [Ledger.left_of_empty hw he, hnext, atomicLsu_next_of_inert (h.mem.inert he)]
      exact h.reserved
    | some e =>
      obtain ⟨-, -, hres⟩ := h.depart hc he hw
      rw [Ledger.left_of_depart hw he, List.length_append, List.length_singleton, r.after, hres]
      rfl
  · rw [Ledger.left_of_wait hw, hnext, hw]
    exact h.reserved

/-- The register file is that before the instruction in MEM. -/
theorem Sim.registerFile_next (h : Sim r s l pend) :
    (next s i).registerFile = (r.hart l.left.length).regs := by
  rw [← h.regs]
  exact Registerfile.next_eq_applyWrites _ _ h.x0

/-- The registers of the run are the register file with write-back's write. -/
theorem Sim.regs_next (h : Sim r s l pend) (hc : Cycle r s l pend i) :
    (next s i).registerFile.applyWrites (next s i).memWb.write =
      (r.hart (l.next s i).left.length).regs := by
  have hwb : (next s i).memWb = MemWb.next (memOut s i) (memWait s i) := rfl
  rw [h.registerFile_next, hwb]
  cases hw : memWait s i
  · cases he : l.inMem with
    | none =>
      rw [Ledger.left_of_empty hw he]
      change Registerfile.applyWrites _ (memOut s i).write = _
      rw [memOut_write_of_inert (h.mem.inert he)]
      rfl
    | some e =>
      obtain ⟨-, hwr, -⟩ := h.depart hc he hw
      rw [Ledger.left_of_depart hw he, List.length_append, List.length_singleton, r.after]
      change Registerfile.applyWrites _ (RiscvCpu.depart s i e).out.write = _
      rw [hwr]
      rfl
  · rw [Ledger.left_of_wait hw]
    rfl

/-- MEM holds the next instruction of the run. -/
theorem Sim.slot_next (h : Sim r s l pend) (hc : Cycle r s l pend i) {e : Entry}
    (he : (l.next s i).inMem = some e) :
    e.slot = (r.instr (l.next s i).left.length).slot (r.hart (l.next s i).left.length) := by
  cases hw : memWait s i
  · rw [Ledger.inMem_of_move hw] at he
    rw [Ledger.left_length_of_move hw]
    split at he
    · rename_i hi
      obtain rfl := Option.some.inj he
      exact (h.issue hc hi).1
    · exact absurd he.symm (Option.some_ne_none _)
  · rw [Ledger.inMem_of_wait hw, Option.map_eq_some_iff] at he
    obtain ⟨e', he', rfl⟩ := he
    rw [Ledger.left_of_wait hw]
    exact h.slot e' he'

/-- No page fault strands an AMO. -/
theorem Sim.notStranded (h : Sim r s l pend) (hc : Cycle r s l pend i) :
    strandsAmoPhase s i = false := by
  rw [strandsAmoPhase, (h.noPageFault hc).1]
  rfl

/-- The word an AMO has read is the memory's. -/
theorem Sim.amo_next (h : Sim r s l pend) (hc : Cycle r s l pend i)
    (hp' : (next s i).amoWritePhase = true) : (next s i).amoReadData =
      loadValue (r.hart (l.next s i).left.length).mem (next s i).exMem.memAddr.toNat 0b010#3 := by
  -- An AMO in its write phase has been in MEM for a cycle.
  have hw : memWait s i = true := by
    by_contra hw
    obtain ⟨e, he, -, hacc⟩ := (h.phase.next h.mem (h.notStranded hc)).write hp'
    rw [Ledger.inMem_of_move (Bool.eq_false_of_not_eq_true hw)] at he
    split at he
    · obtain rfl := Option.some.inj he
      exact absurd hacc.symm (List.cons_ne_nil _ _)
    · exact absurd he.symm (Option.some_ne_none _)
  have hmem : (next s i).exMem = s.exMem := exMem_next_of_memWait hw
  rw [Ledger.left_of_wait hw, hmem, next_amoReadData]
  rw [next_amoWritePhase] at hp'
  split
  · rename_i hread
    rw [Bool.and_eq_true] at hread
    obtain ⟨hr, hrv⟩ := hread
    rw [amoReadPhase, Bool.and_eq_true, Bool.not_eq_true'] at hr
    obtain ⟨hrd, -, -, hlt⟩ := amoRead_facts hr.1 hr.2
    rw [hc.data hrv hrd, hlt]
    rfl
  · rename_i hread
    rw [if_neg hread] at hp'
    refine h.amo ?_
    split at hp'
    · exact absurd hp' Bool.false_ne_true
    · exact hp'

/-! ## One cycle of the front end -/

/-- A word that enters IF/ID is the one at the PC. -/
theorem Sim.fetched (h : Sim r s l pend) (hc : Cycle r s l pend i)
    (hw : fetchWait s i = false) : i.instrIn = code s.pc := by
  obtain ⟨-, -, hnf⟩ := hc.noFault
  have hv : i.instrRvalidIn = true ∧ s.fetchDiscard = false := by
    simpa [fetchWait, hnf, fetchResponseValid] using hw
  obtain ⟨a, ha, hp⟩ := hc.fetch hv.1
  split at hp
  · rw [ha, Option.some.inj hp]
  · rw [ha, (h.fetch a hp).2 hv.2]

/-- No fetch has faulted. -/
theorem Sim.faults_next (h : Sim r s l pend) (hc : Cycle r s l pend i) :
    (next s i).ifId.instrPageFault = false ∧ (next s i).idEx.instrPageFault = false := by
  obtain ⟨-, -, hnf⟩ := hc.noFault
  rcases front_cases s i with ⟨-, -, hid, hex⟩ | ⟨-, -, hid, -, hex⟩ |
    ⟨-, -, hid, -, -, hex⟩ | ⟨-, -, -, hex, hfetch⟩
  · rw [hid, hex]
    exact ⟨rfl, rfl⟩
  · rw [hid, hex]
    exact ⟨h.idFault, h.exFault⟩
  · rw [hid, hex]
    exact ⟨h.idFault, rfl⟩
  · rw [hex]
    refine ⟨?_, h.idFault⟩
    rcases hfetch with ⟨-, -, hid⟩ | ⟨-, -, hid⟩
    · rw [hid]
    · rw [hid]
      exact hnf

/-- IF/ID and EX hold the words at their addresses. -/
theorem Sim.words_next (h : Sim r s l pend) (hc : Cycle r s l pend i) :
    ((next s i).ifId.instructionValid = true →
      (next s i).ifId.instruction = code (next s i).ifId.pc) ∧
    ((next s i).idEx.instrValid = true → (next s i).idEx.instr = code (next s i).idEx.pc) := by
  rcases front_cases s i with ⟨-, -, hid, hex⟩ | ⟨-, -, hid, -, hex⟩ |
    ⟨-, -, hid, -, -, hex⟩ | ⟨-, -, -, hex, hfetch⟩
  · rw [hid, hex]
    exact ⟨nofun, nofun⟩
  · rw [hid, hex]
    exact ⟨h.idWord, h.exWord⟩
  · rw [hid, hex]
    exact ⟨h.idWord, nofun⟩
  · rw [hex]
    refine ⟨?_, h.idWord⟩
    rcases hfetch with ⟨-, -, hid⟩ | ⟨hw, -, hid⟩
    · rw [hid]
      exact nofun
    · rw [hid]
      exact fun _ => h.fetched hc hw

/-- **The fetch that is out after a cycle**: the PC's, unless it is to be discarded. -/
theorem Sim.fetch_next (h : Sim r s l pend) (hc : Cycle r s l pend i) (a : Word)
    (ha : (if i.instrRvalidIn then none else if i.instrGntIn then some s.pc else pend) = some a) :
    (next s i).fetchOutstanding = true ∧
      ((next s i).fetchDiscard = false → a = (next s i).pc) := by
  obtain ⟨-, -, hnf⟩ := hc.noFault
  have hout : (next s i).fetchOutstanding = nextFetchOutstanding s i := rfl
  have hdis : (next s i).fetchDiscard = nextFetchDiscard s i := rfl
  rw [hout, hdis, nextFetchOutstanding, nextFetchDiscard]
  split at ha
  · exact absurd ha.symm (Option.some_ne_none _)
  rename_i hrv
  have hrv : i.instrRvalidIn = false := Bool.eq_false_of_not_eq_true hrv
  -- Without a redirect the PC stays until the answer comes.
  have hstay : jSignal s i = false → (next s i).pc = s.pc := by
    intro hj
    have hw : fetchWait s i = true := by simp [fetchWait, fetchResponseValid, hrv, hnf]
    rcases front_cases s i with ⟨hj', -⟩ | ⟨-, hpc, -⟩ | ⟨-, hpc, -⟩ |
      ⟨-, -, -, -, ⟨-, hpc, -⟩ | ⟨hw', -⟩⟩
    · exact absurd (hj.symm.trans hj') Bool.false_ne_true
    · exact hpc
    · exact hpc
    · exact hpc
    · exact absurd (hw'.symm.trans hw) Bool.false_ne_true
  rw [hrv]
  split at ha
  · rename_i hg
    obtain rfl := Option.some.inj ha
    rw [hg]
    refine ⟨rfl, fun hd => ?_⟩
    cases hj : jSignal s i
    · exact (hstay hj).symm
    · simp [hj] at hd
  · rename_i hg
    obtain ⟨hfo, hpc⟩ := h.fetch a ha
    rw [if_neg hg]
    refine ⟨hfo, fun hd => ?_⟩
    cases hj : jSignal s i
    · have hd' : s.fetchDiscard = false := by simpa [hj] using hd
      rw [hpc hd', hstay hj]
    · simp [hj, hfo] at hd

/-! ## Operands -/

/-- A held EX keeps its operands; where no access waits, it holds a fence, which reads none. -/
theorem Sim.held (h : Sim r s l pend) (hh : pipelineHold s i = true)
    (hv : s.idEx.instrValid = true) :
    (∀ rs valid own, resolve (next s i) rs valid (resolve s rs valid own) =
      resolve s rs valid own) ∨
    (s.idEx.dec.rs1Valid = false ∧ s.idEx.dec.rs2Valid = false) := by
  cases hw : memWait s i
  · right
    exact h.front.noOperand_of_held hv (h.front.exStageActive_of_hold hh hv) hw
  · left
    exact resolve_of_memWait hw

/-- The registers after an instruction, given what its slot needs from outside. -/
theorem regs_after (r : SeqRun code) (j : ℕ) {sc : Bool} {v : Word}
    (ha : Instr.Answers (r.instr j) (r.hart j) sc v) (q : BitVec 5) :
    (r.hart (j + 1)).regs q =
      let e := (r.instr j).slot (r.hart j)
      if e.rdValid = true ∧ e.rdAddr ≠ 0#5 ∧ e.rdAddr = q then e.result sc v
      else (r.hart j).regs q := by
  have hw := (Instr.agrees (r.exec j) ha).writes
  dsimp only
  rw [r.after j]
  change (r.outcome j).writes.foldl (fun f w => Function.update f w.1 w.2) (r.hart j).regs q = _
  rw [← hw]
  cases hv : ((r.instr j).slot (r.hart j)).rdValid
  · simp
  · by_cases hz : ((r.instr j).slot (r.hart j)).rdAddr = 0#5
    · simp [hz]
    · by_cases hq : ((r.instr j).slot (r.hart j)).rdAddr = q
      · subst hq
        simp [hz]
      · simp [hz, hq, Ne.symm hq]

/-- **An operand read in decode is the run's**, once the instruction is in EX. -/
theorem Sim.resolve_next (h : Sim r s l pend) (hc : Cycle r s l pend i)
    (hw : memWait s i = false) {rs : BitVec 5} {valid : Bool}
    (hz : valid = true → ¬ (s.idEx.dec.instrId.isLoad = true ∧ s.idEx.dec.rdValid = true ∧
      s.idEx.dec.rd ≠ 0#5 ∧ rs = s.idEx.dec.rd)) :
    resolve (next s i) rs valid
        (s.registerFile.read rs valid s.memWb.rdAddr s.memWb.wrEn s.memWb.rdValue) =
      operand (r.hart (l.next s i).position).regs rs valid := by
  have hregs := h.regs_next hc
  rw [h.registerFile_next] at hregs
  rw [read_eq_operand, h.regs, position_next]
  have hlen := Ledger.left_length_of_move (l := l) hw
  rw [hlen] at hregs
  rcases mem_cases (i := i) h.front with ⟨hw', -⟩ | ⟨-, hi, hx⟩ | ⟨-, hi, hx⟩
  · exact absurd (hw.symm.trans hw') Bool.false_ne_true
  · -- The instruction that has left EX is in MEM, and its result is the last of the run.
    have hslot := (h.issue hc hi).1
    rw [← hx] at hslot
    -- Whatever the memory will answer, an instruction that is no load has its result now.
    have hres := h.reserved_next hc
    rw [hlen] at hres
    obtain ⟨v, hans⟩ : ∃ v, Instr.Answers (r.instr l.position) (r.hart l.position)
        (scSuccess (next s i)) v :=
      ⟨_, fun _ => rfl, scSuccess_eq (r.exec _) hslot hres⟩
    have hfwd : (next s i).exMem.instrId.isLoad = false → exMemForwardResult (next s i) =
        (next s i).exMem.result (scSuccess (next s i)) v := by
      intro hl
      rw [ExMem.result, hl]
      rfl
    -- A load in MEM is one that decode would have waited for.
    have hload : valid = true → ¬ ((next s i).exMem.rdValid = true ∧
        (next s i).exMem.rdAddr ≠ 0#5 ∧ (next s i).exMem.rdAddr = rs ∧
        (next s i).exMem.instrId.isLoad = true) := by
      rw [hx]
      exact fun hv hq => hz hv ⟨hq.2.2.2, hq.1, hq.2.1, hq.2.2.1.symm⟩
    rw [resolve_of_move hfwd hload, hregs, hi, Bool.toNat_true]
    congr 1
    funext q
    rw [regs_after r l.position hans, ← hslot]
  · -- Nothing has left EX, and MEM names no register.
    have hnone : ∀ q, ¬ ((next s i).exMem.rdValid = true ∧ (next s i).exMem.rdAddr ≠ 0#5 ∧
        (next s i).exMem.rdAddr = q) := fun q hq => hq.2.1 (hx.rd hq.1)
    rw [resolve_of_move (fun _ => rfl) fun _ hq => hnone rs ⟨hq.1, hq.2.1, hq.2.2.1⟩, hregs, hi,
      Bool.toNat_false, Nat.add_zero]
    congr 1
    funext q
    exact if_neg (hnone q)

/-- The operands stay those of the run. -/
theorem Sim.operands_next (h : Sim r s l pend) (hc : Cycle r s l pend i)
    (hv' : (next s i).idEx.instrValid = true) :
    resolve (next s i) (next s i).idEx.dec.rs1 (next s i).idEx.dec.rs1Valid
        (next s i).idEx.rs1Value =
      operand (r.hart (l.next s i).position).regs (next s i).idEx.dec.rs1
        (next s i).idEx.dec.rs1Valid ∧
    resolve (next s i) (next s i).idEx.dec.rs2 (next s i).idEx.dec.rs2Valid
        (next s i).idEx.rs2Value =
      operand (r.hart (l.next s i).position).regs (next s i).idEx.dec.rs2
        (next s i).idEx.dec.rs2Valid := by
  rcases front_cases s i with ⟨-, -, -, hex⟩ | ⟨-, -, -, hh, hex⟩ |
    ⟨-, -, -, -, -, hex⟩ | ⟨-, hh, hz, hex, -⟩
  · rw [hex] at hv'
    -- Behind a redirect EX is empty.
    exact absurd hv' Bool.false_ne_true
  · -- EX is held, with the operands it has resolved.
    rw [hex] at hv' ⊢
    have hpos : (l.next s i).position = l.position := by
      rw [position_next, h.front.issues_of_hold hh]
      rfl
    rw [hpos, rs1Value_exIn, rs2Value_exIn]
    have h1 := h.rs1 hv'
    have h2 := h.rs2 hv'
    rcases h.held hh hv' with hkeep | ⟨hv1, hv2⟩
    · exact ⟨(hkeep _ _ _).trans h1, (hkeep _ _ _).trans h2⟩
    · dsimp only
      rw [hv1] at h1 ⊢
      rw [hv2] at h2 ⊢
      exact ⟨h1, h2⟩
  · rw [hex] at hv'
    -- So it is behind a load that decode waits for.
    exact absurd hv' Bool.false_ne_true
  · -- Decode moves on, and EX holds no load that it reads from.
    rw [hex]
    have hw : memWait s i = false := by
      simp only [pipelineHold, Bool.or_eq_false_iff] at hh
      exact hh.2
    obtain ⟨h1, h2⟩ := not_loads_of_hazardStall hz
    exact ⟨h.resolve_next hc hw h1, h.resolve_next hc hw h2⟩

/-! ## Runs -/

/-- The fetch that is out after a cycle. -/
def nextPending (s : RiscvCpu) (i : CpuIn) (pend : Option Word) : Option Word :=
  if i.instrRvalidIn then none else if i.instrGntIn then some s.pc else pend

/-- **Step.** One cycle keeps the core in step with the run. -/
theorem Sim.next (h : Sim r s l pend) (hc : Cycle r s l pend i) :
    Sim r (RiscvCpu.next s i) (l.next s i) (nextPending s i pend) where
  front := h.front.next
  mem := h.mem.next h.front
  phase := h.phase.next h.mem (h.notStranded hc)
  csr := h.csr_next hc
  awake := h.awake_next
  idFault := (h.faults_next hc).1
  exFault := (h.faults_next hc).2
  idWord := (h.words_next hc).1
  exWord := (h.words_next hc).2
  fetch := h.fetch_next hc
  pc := h.pc_next hc
  slot _ := h.slot_next hc
  amo := h.amo_next hc
  reserved := h.reserved_next hc
  x0 := by rw [h.registerFile_next]; exact r.regs_x0 _
  regs := h.regs_next hc
  rs1 hv := (h.operands_next hc hv).1
  rs2 hv := (h.operands_next hc hv).2
  accesses := h.accesses_next hc
  writes := h.writes_next hc

/-- **Start.** After reset the core is in step with every run from its registers. -/
theorem sim_start (hpc : (r.hart 0).pc = 0x80000000#32) (hres : (r.hart 0).reserved = none) :
    Sim r (start (r.hart 0)) ⟨0x80000000#32, [], none⟩ none where
  front := ⟨nofun, nofun, rfl, nofun, fun _ => .inl rfl, fun _ => rfl, nofun⟩
  mem := ⟨nofun, fun _ => ⟨rfl, rfl, rfl, nofun⟩⟩
  phase := ⟨nofun, fun _ => nofun⟩
  csr := ⟨rfl, rfl, fun _ => rfl⟩
  awake := rfl
  idFault := rfl
  exFault := rfl
  idWord := nofun
  exWord := nofun
  fetch := nofun
  pc := hpc.symm
  slot := nofun
  amo := nofun
  reserved := hres.symm
  x0 := r.x0
  regs := rfl
  rs1 := nofun
  rs2 := nofun
  accesses := rfl
  writes := rfl

end RiscvCpu

end Synapse32
