import Synapse32.Core.Simulation

/-! # Operands

An operand that EX takes comes from the register file, from MEM, from WB or from what EX captured
while it was held. Wherever it comes from, it is what the register file holds once the instructions
ahead of EX have written back. -/

namespace Synapse32

open ExecutionUnit

namespace RiscvCpu

/-- The register file as WB's instruction and then MEM's leave it, MEM's result being the one that
it forwards. -/
def settled (s : RiscvCpu) : Registerfile := fun q =>
  if s.exMem.rdValid = true ∧ s.exMem.rdAddr ≠ 0#5 ∧ s.exMem.rdAddr = q then exMemForwardResult s
  else s.registerFile.applyWrites s.memWb.write q

/-- **One operand is right**: no load in MEM is still to deliver it, and what forwarding makes of
EX's own copy is the register as the instructions ahead leave it. -/
structure OperandOk (s : RiscvCpu) (rs : BitVec 5) (valid : Bool) (own : Word) : Prop where
  noLoad : valid = true → ¬ (s.exMem.rdValid = true ∧ s.exMem.rdAddr ≠ 0#5 ∧ s.exMem.rdAddr = rs ∧
    s.exMem.instrId.isLoad = true)
  value : valid = true → resolve s rs valid own = settled s rs

/-- The operands of an instruction in EX. -/
structure OperandsOk (s : RiscvCpu) : Prop where
  x0 : s.registerFile 0#5 = 0#32
  rs1 : s.idEx.instrValid = true → OperandOk s s.idEx.dec.rs1 s.idEx.dec.rs1Valid s.idEx.rs1Value
  rs2 : s.idEx.instrValid = true → OperandOk s s.idEx.dec.rs2 s.idEx.dec.rs2Valid s.idEx.rs2Value

variable {s : RiscvCpu} {i : CpuIn} {rs : BitVec 5} {valid : Bool} {own : Word}

/-! ## One cycle -/

/-- The register file takes the write of WB. -/
theorem registerFile_next (h0 : s.registerFile 0#5 = 0#32) :
    (next s i).registerFile = s.registerFile.applyWrites s.memWb.write :=
  Registerfile.next_eq_applyWrites _ _ h0

/-- The write port clears `x0`. -/
theorem registerFile_next_x0 : (next s i).registerFile 0#5 = 0#32 := by
  show Registerfile.next _ _ _ _ 0#5 = _
  unfold Registerfile.next
  split
  · rename_i h
    exact absurd h.2.2.symm h.2.1
  · rfl

/-- An operand that is not used is right whatever it is. -/
theorem operandOk_of_not_valid : OperandOk s rs false own := by
  constructor <;>
  · intro h
    exact absurd h Bool.false_ne_true

/-- While MEM waits, WB's write reaches the register file and MEM's result stays what it is. -/
theorem settled_of_memWait (h0 : s.registerFile 0#5 = 0#32) (hw : memWait s i = true) :
    settled (next s i) = settled s := by
  funext q
  unfold settled
  rw [exMem_next_of_memWait hw, exMemForwardResult_of_memWait hw, memWb_next_of_memWait hw,
    registerFile_next h0]
  rfl

/-- **A held operand**: EX keeps what forwarding has made of its copy. -/
theorem OperandOk.wait (h : OperandOk s rs valid own) (h0 : s.registerFile 0#5 = 0#32)
    (hw : memWait s i = true) : OperandOk (next s i) rs valid (resolve s rs valid own) := by
  constructor
  · intro hv
    rw [exMem_next_of_memWait hw]
    exact h.noLoad hv
  · rw [resolve_of_memWait hw, settled_of_memWait h0 hw]
    exact h.value

/-- **An operand read in decode**: the register file is two instructions behind when the instruction
is in EX, and decode has waited for a load. -/
theorem operandOk_decode (h0 : s.registerFile 0#5 = 0#32) {programPc : Word}
    (hf : FrontInv s programPc) (hh : pipelineHold s i = false)
    (hz : valid = true → ¬ (s.idEx.dec.instrId.isLoad = true ∧ s.idEx.dec.rdValid = true ∧
      s.idEx.dec.rd ≠ 0#5 ∧ rs = s.idEx.dec.rd)) :
    OperandOk (next s i) rs valid
      (s.registerFile.read rs valid s.memWb.rdAddr s.memWb.wrEn s.memWb.rdValue) := by
  have hw : memWait s i = false := by
    simp only [pipelineHold, Bool.or_eq_false_iff] at hh
    exact hh.2
  have hload : valid = true → ¬ ((next s i).exMem.rdValid = true ∧ (next s i).exMem.rdAddr ≠ 0#5 ∧
      (next s i).exMem.rdAddr = rs ∧ (next s i).exMem.instrId.isLoad = true) := by
    -- What is in MEM now was in EX, or nothing was.
    rcases mem_cases (i := i) (l := ⟨programPc, [], none⟩) hf with
      ⟨hw', -⟩ | ⟨-, -, hx⟩ | ⟨-, -, hx⟩
    · exact absurd (hw.symm.trans hw') Bool.false_ne_true
    · rw [hx]
      intro hv hq
      exact hz hv ⟨hq.2.2.2, hq.1, hq.2.1, hq.2.2.1.symm⟩
    · intro _ hq
      exact hq.2.1 (hx.rd hq.1)
  refine ⟨hload, fun hv => ?_⟩
  rw [read_eq_operand, ← registerFile_next (i := i) h0, resolve_of_move (fun _ => rfl) hload,
    operand, if_pos hv]
  rfl

/-- **Step.** The operands stay right. -/
theorem OperandsOk.next (h : OperandsOk s) {programPc : Word} (hf : FrontInv s programPc) :
    OperandsOk (next s i) := by
  rcases front_cases s i with ⟨-, -, -, hex⟩ | ⟨-, -, -, hh, hex⟩ | ⟨-, -, -, -, -, hex⟩ |
    ⟨-, hh, hz, hex, -⟩
  · -- Behind a redirect EX is empty.
    refine ⟨registerFile_next_x0, ?_, ?_⟩ <;>
    · rw [hex]
      exact nofun
  · -- EX is held.
    rcases Bool.eq_false_or_eq_true (memWait s i) with hw | hw
    · refine ⟨registerFile_next_x0, ?_, ?_⟩
      · rw [hex]
        intro hv
        exact (h.rs1 hv).wait h.x0 hw
      · rw [hex]
        intro hv
        exact (h.rs2 hv).wait h.x0 hw
    · -- A fence that is held back uses no operand.
      have hno : s.idEx.instrValid = true →
          s.idEx.dec.rs1Valid = false ∧ s.idEx.dec.rs2Valid = false := fun hv =>
        hf.noOperand_of_held hv (hf.exStageActive_of_hold hh hv) hw
      refine ⟨registerFile_next_x0, ?_, ?_⟩
      · rw [hex]
        intro hv
        show OperandOk _ _ s.idEx.dec.rs1Valid _
        rw [(hno hv).1]
        exact operandOk_of_not_valid
      · rw [hex]
        intro hv
        show OperandOk _ _ s.idEx.dec.rs2Valid _
        rw [(hno hv).2]
        exact operandOk_of_not_valid
  · -- A load-use stall leaves a bubble in EX.
    refine ⟨registerFile_next_x0, ?_, ?_⟩ <;>
    · rw [hex]
      exact nofun
  · -- Decode moves on, and EX holds no load that it reads from.
    obtain ⟨h1, h2⟩ := not_loads_of_hazardStall hz
    refine ⟨registerFile_next_x0, ?_, ?_⟩
    · rw [hex]
      intro _
      exact operandOk_decode h.x0 hf hh h1
    · rw [hex]
      intro _
      exact operandOk_decode h.x0 hf hh h2

/-! ## Every run -/

variable (ins : ℕ → CpuIn)

/-- **Run lemma.** The operands in EX are right before every cycle. -/
theorem operandsOk_run (n : ℕ) : OperandsOk (run ins n) := by
  induction n with
  | zero => exact ⟨rfl, nofun, nofun⟩
  | succ n ih => exact ih.next (frontInv_runFrom idle_reset n)

/-- **When EX lets its instruction go**, the register file two cycles later is the settled one: MEM
lets go as well, and no instruction behind it has written. -/
theorem registerFile_of_leaves {n : ℕ} (ha : exStageActive (run ins n) (ins n) = true)
    (hf : memStagePageFaultTaken (run ins n) (ins n) = false) {rs : BitVec 5}
    (hload : ¬ ((run ins n).exMem.rdValid = true ∧ (run ins n).exMem.rdAddr ≠ 0#5 ∧
      (run ins n).exMem.rdAddr = rs ∧ (run ins n).exMem.instrId.isLoad = true)) :
    (run ins (n + 2)).registerFile rs = settled (run ins n) rs := by
  have hw : memWait (run ins n) (ins n) = false := by
    simp only [exStageActive, Bool.and_eq_true, Bool.not_eq_true'] at ha
    exact ha.1
  -- What is in MEM goes to WB in this cycle and to the register file in the next.
  have hwb : (run ins (n + 1)).memWb = memOut (run ins n) (ins n) := by
    show MemWb.next (memOut (run ins n) (ins n)) (memWait (run ins n) (ins n)) = _
    rw [hw]
    rfl
  have h1 : (run ins (n + 2)).registerFile =
      (run ins (n + 1)).registerFile.applyWrites (run ins (n + 1)).memWb.write :=
    registerFile_next (operandsOk_run ins (n + 1)).x0
  have h2 : (run ins (n + 1)).registerFile =
      (run ins n).registerFile.applyWrites (run ins n).memWb.write :=
    registerFile_next (operandsOk_run ins n).x0
  rw [h1, h2, hwb, applyWrites_write]
  unfold settled memOut
  simp only [hf, Bool.not_false, Bool.true_and, Bool.false_eq_true, if_false]
  split
  · rename_i hwr
    -- Only a load's result is not the one that MEM forwards.
    have hnl : (run ins n).exMem.instrId.isLoad = false := by
      by_contra hl
      exact hload ⟨hwr.1, hwr.2.1, hwr.2.2, Bool.eq_true_of_not_eq_false hl⟩
    simp [MemWb.rdValue, hnl]
  · rfl

/-- **An EX that is held keeps its instruction and the operands it uses.** -/
theorem held_next {n : ℕ} (hv : (run ins n).idEx.instrValid = true)
    (ha : exStageActive (run ins n) (ins n) = false)
    (hf : memStagePageFaultTaken (run ins n) (ins n) = false) :
    (run ins (n + 1)).idEx.instrValid = true ∧
      (run ins (n + 1)).idEx.dec = (run ins n).idEx.dec ∧
      ((run ins n).idEx.dec.rs1Valid = true → rs1Value (exIn (run ins (n + 1)) (ins (n + 1))) =
        rs1Value (exIn (run ins n) (ins n))) ∧
      ((run ins n).idEx.dec.rs2Valid = true → rs2Value (exIn (run ins (n + 1)) (ins (n + 1))) =
        rs2Value (exIn (run ins n) (ins n))) := by
  have hfront : FrontInv (run ins n) (ledger reset ins n).programPc := frontInv_runFrom idle_reset n
  have hj : jSignal (run ins n) (ins n) = false := by
    have hp : instrStagePageFaultTaken (run ins n) (ins n) = false := by
      rw [instrStagePageFaultTaken, ha, Bool.and_false, Bool.false_and]
    rw [jSignal, hf, hp, (exOut_of_held ha).1]
    rfl
  -- An instruction that does not leave EX without a redirect holds the front end.
  have hh : pipelineHold (run ins n) (ins n) = true := by
    by_contra hh
    have hi := issues_of_not_hold hj (Bool.eq_false_of_not_eq_true hh)
    rw [issues, ha, hv] at hi
    exact Bool.false_ne_true hi
  have hex : (run ins (n + 1)).idEx = { (run ins n).idEx with
      rs1Value := rs1Value (exIn (run ins n) (ins n))
      rs2Value := rs2Value (exIn (run ins n) (ins n)) } := by
    rcases front_cases (run ins n) (ins n) with ⟨hj', -⟩ | ⟨-, -, -, -, hex⟩ |
      ⟨-, -, -, hh', -⟩ | ⟨-, hh', -⟩
    · exact absurd (hj.symm.trans hj') Bool.false_ne_true
    · exact hex
    · exact absurd (hh'.symm.trans hh) Bool.false_ne_true
    · exact absurd (hh'.symm.trans hh) Bool.false_ne_true
  -- It waits for an access, or it is a fence and has no operand.
  have hkeep : memWait (run ins n) (ins n) = true ∨
      ((run ins n).idEx.dec.rs1Valid = false ∧ (run ins n).idEx.dec.rs2Valid = false) := by
    cases hw : memWait (run ins n) (ins n)
    · exact Or.inr (hfront.noOperand_of_held hv ha hw)
    · exact Or.inl rfl
  refine ⟨by rw [hex]; exact hv, by rw [hex], ?_, ?_⟩
  · intro hu
    rcases hkeep with hw | hno
    · rw [rs1Value_exIn, hex]
      exact resolve_of_memWait hw _ _ _
    · exact absurd (hno.1.symm.trans hu) Bool.false_ne_true
  · intro hu
    rcases hkeep with hw | hno
    · rw [rs2Value_exIn, hex]
      exact resolve_of_memWait hw _ _ _
    · exact absurd (hno.2.symm.trans hu) Bool.false_ne_true

/-- **The operands of the instruction in EX in cycle `n`**, which leaves EX in cycle `m`. -/
structure OperandsRight (ins : ℕ → CpuIn) (n m : ℕ) : Prop where
  /-- The instruction in EX is the next one in program order, -/
  next : (run ins m).idEx.pc = (ledger reset ins m).programPc
  /-- and two cycles after it leaves EX, those before it, and no others, have written back. -/
  older : (run ins (m + 2)).registerFile = reset.registerFile.applyWrites
    ((ledger reset ins (m + 1)).left.flatMap (·.out.write))
  rs1 : (run ins n).idEx.dec.rs1Valid = true → rs1Value (exIn (run ins n) (ins n)) =
    (run ins (m + 2)).registerFile (run ins n).idEx.dec.rs1
  rs2 : (run ins n).idEx.dec.rs2Valid = true → rs2Value (exIn (run ins n) (ins n)) =
    (run ins (m + 2)).registerFile (run ins n).idEx.dec.rs2
  x0 : (run ins (m + 2)).registerFile 0#5 = 0#32

/-- The cycle in which the instruction leaves. -/
theorem operandsRight_leaving {n : ℕ} (hv : (run ins n).idEx.instrValid = true)
    (ha : exStageActive (run ins n) (ins n) = true)
    (hf : memStagePageFaultTaken (run ins n) (ins n) = false) : OperandsRight ins n n := by
  have hok := operandsOk_run ins n
  refine ⟨(frontInv_runFrom idle_reset n).ex hv, ?_, ?_, ?_, ?_⟩
  · rw [← writeLog_eq idle_reset, ← writeLog_succ]
    exact (registerFile_eq idle_reset (n + 2)).1
  · intro hu
    rw [rs1Value_exIn, (hok.rs1 hv).value hu]
    exact (registerFile_of_leaves ins ha hf ((hok.rs1 hv).noLoad hu)).symm
  · intro hu
    rw [rs2Value_exIn, (hok.rs2 hv).value hu]
    exact (registerFile_of_leaves ins ha hf ((hok.rs2 hv).noLoad hu)).symm
  · exact (operandsOk_run ins (n + 2)).x0

/-- **Operands are right.** In every run from reset, an instruction in EX that is held there until
cycle `m` and not flushed by an older page fault has, in every cycle from `n` to `m`, the operands
that the register file holds once all instructions before it have written back. -/
theorem run_operandsRight {n m : ℕ} (hnm : n ≤ m) (hv : (run ins n).idEx.instrValid = true)
    (hheld : ∀ k, n ≤ k → k < m → exStageActive (run ins k) (ins k) = false)
    (ha : exStageActive (run ins m) (ins m) = true)
    (hf : ∀ k, n ≤ k → k ≤ m → memStagePageFaultTaken (run ins k) (ins k) = false) :
    OperandsRight ins n m := by
  -- Backwards from the cycle in which it leaves.
  induction hd : m - n generalizing n with
  | zero =>
    obtain rfl : n = m := by omega
    exact operandsRight_leaving ins hv ha (hf n le_rfl le_rfl)
  | succ d ih =>
    obtain ⟨hv', hdec, h1, h2⟩ := held_next ins hv (hheld n le_rfl (by omega))
      (hf n le_rfl hnm)
    have h := ih (n := n + 1) (by omega) hv' (fun k hk hkm => hheld k (by omega) hkm)
      (fun k hk hkm => hf k (by omega) hkm) (by omega)
    refine ⟨h.next, h.older, ?_, ?_, h.x0⟩
    · intro hu
      rw [← h1 hu, ← hdec]
      exact h.rs1 (by rw [hdec]; exact hu)
    · intro hu
      rw [← h2 hu, ← hdec]
      exact h.rs2 (by rw [hdec]; exact hu)

/-- `addi x1, x0, 5`, `lw x2, 0(x0)` and `add x3, x1, x1`, the load's answer coming in cycle 6. -/
def heldAdd (n : ℕ) : CpuIn :=
  { quietFetch ([0x00500093#32, 0x00002103#32, 0x001081B3#32].getD n nopInstr) with
    readDataIn := 0x11#32
    dataRvalidIn := n == 6 }

/-- An addition held in EX behind a load. -/
theorem run_operandsRight_heldAdd : OperandsRight heldAdd 4 6 :=
  run_operandsRight heldAdd (by decide) (by decide +kernel)
    (fun k h4 h6 => by interval_cases k <;> decide +kernel) (by decide +kernel)
    (fun k h4 h6 => by interval_cases k <;> decide +kernel)

end RiscvCpu

end Synapse32
