import Synapse32.Rtl.ExecutionUnit
import Synapse32.Rtl.Pipeline
import Synapse32.Core.Decode
import Synapse32.Isa.Hart

/-! # The data path computes the instruction set's operations

`alu.v`, the branch conditions, the load and store formats and the AMO operations against the
definitions of the instruction set. -/

namespace Synapse32

open ByteLanes

/-! ## Arithmetic -/

/-- The shift amount of a register. -/
theorem toNat_shamt (b : Word) : (b.extractLsb' 0 5).toNat = b.toNat % 32 := by
  simp [BitVec.extractLsb'_toNat]

/-- The low half of a 64-bit product. -/
theorem ofInt_low (z : ℤ) : (BitVec.ofInt 64 z).extractLsb' 0 32 = BitVec.ofInt 32 z := by
  refine BitVec.eq_of_toNat_eq ?_
  rw [BitVec.extractLsb'_toNat, BitVec.toNat_ofInt, BitVec.toNat_ofInt, Nat.shiftRight_zero]
  omega

/-- The high half of a 64-bit product. -/
theorem ofInt_high (z : ℤ) :
    (BitVec.ofInt 64 z).extractLsb' 32 32 = BitVec.ofInt 32 (z / 2 ^ 32) := by
  refine BitVec.eq_of_toNat_eq ?_
  rw [BitVec.extractLsb'_toNat, BitVec.toNat_ofInt, BitVec.toNat_ofInt, Nat.shiftRight_eq_div_pow]
  omega

/-- A zero-extended factor. -/
theorem setWidth_eq_ofInt (a : Word) : a.setWidth 64 = BitVec.ofInt 64 (a.toNat : ℤ) := by
  refine BitVec.eq_of_toNat_eq ?_
  have h := a.isLt
  rw [BitVec.toNat_setWidth, BitVec.toNat_ofInt]
  omega

/-- Signed division, the overflow included. -/
theorem sdiv_eq_ofInt (a b : Word) : a.sdiv b = BitVec.ofInt 32 (a.toInt.tdiv b.toInt) := by
  refine BitVec.eq_of_toInt_eq ?_
  rw [BitVec.toInt_sdiv, BitVec.toInt_ofInt]

/-- Signed remainder. -/
theorem srem_eq_ofInt (a b : Word) : a.srem b = BitVec.ofInt 32 (a.toInt.tmod b.toInt) := by
  rw [← BitVec.toInt_srem, BitVec.ofInt_toInt]

/-- **The ALU on register-register operations.** -/
theorem alu_op (o : ROp) (a b imm : Word) : alu a b imm o.id = o.eval a b := by
  cases o
  case sll => exact congrArg (a <<< ·) (toNat_shamt b)
  case srl => exact congrArg (a >>> ·) (toNat_shamt b)
  case sra => exact congrArg a.sshiftRight (toNat_shamt b)
  case mul =>
    -- The products are those of the integers that the operands are read as.
    change (a.signExtend 64 * b.signExtend 64).extractLsb' 0 32 = _
    rw [BitVec.signExtend, BitVec.signExtend, ← BitVec.ofInt_mul, ofInt_low]
    rfl
  case mulh =>
    change (a.signExtend 64 * b.signExtend 64).extractLsb' 32 32 = _
    rw [BitVec.signExtend, BitVec.signExtend, ← BitVec.ofInt_mul, ofInt_high]
    rfl
  case mulhsu =>
    change (a.signExtend 64 * b.setWidth 64).extractLsb' 32 32 = _
    rw [BitVec.signExtend, setWidth_eq_ofInt, ← BitVec.ofInt_mul, ofInt_high]
    rfl
  case mulhu =>
    change (a.setWidth 64 * b.setWidth 64).extractLsb' 32 32 = _
    rw [setWidth_eq_ofInt, setWidth_eq_ofInt, ← BitVec.ofInt_mul, ofInt_high]
    rfl
  case div =>
    change (if b = 0#32 then _ else if _ then _ else _) = if b = 0#32 then _ else _
    by_cases hb : b = 0#32
    · rw [if_pos hb, if_pos hb]
    · rw [if_neg hb, if_neg hb]
      split
      · -- The overflow pair, which `div` of the specification takes as any other.
        rename_i h
        rw [h.1, h.2]
        decide
      · exact sdiv_eq_ofInt a b
  case rem =>
    change (if b = 0#32 then _ else if _ then _ else _) = if b = 0#32 then _ else _
    by_cases hb : b = 0#32
    · rw [if_pos hb, if_pos hb]
    · rw [if_neg hb, if_neg hb]
      split
      · rename_i h
        rw [h.1, h.2]
        decide
      · exact srem_eq_ofInt a b
  case divu =>
    change (if b = 0#32 then _ else a / b) = if b = 0#32 then _ else _
    rw [BitVec.udiv_def]
  case remu =>
    change (if b = 0#32 then _ else a % b) = if b = 0#32 then _ else _
    rw [BitVec.umod_def]
  all_goals rfl

/-- The ALU on register-immediate operations. -/
theorem alu_opImm (o : IOp) (a b imm : Word) : alu a b imm o.id = o.eval a imm := by
  cases o <;> rfl

/-- The ALU on shifts by an immediate. -/
theorem alu_shift (o : ShiftOp) (a b : Word) (shamt : BitVec 5) :
    alu a b ((o.funct7 ++ shamt).signExtend 32) o.id = o.eval a shamt.toNat := by
  have h : ((o.funct7 ++ shamt).signExtend 32).extractLsb' 0 5 = shamt := by
    refine BitVec.eq_of_getLsbD_eq fun k hk => ?_
    rw [BitVec.getLsbD_extractLsb', BitVec.getLsbD_signExtend, BitVec.getLsbD_append]
    simp [hk, show k < 12 by omega, show k < 32 by omega]
  cases o
  all_goals
    first
    | exact congrArg (a <<< ·) (congrArg BitVec.toNat h)
    | exact congrArg (a >>> ·) (congrArg BitVec.toNat h)
    | exact congrArg a.sshiftRight (congrArg BitVec.toNat h)

/-! ## Branches -/

/-- **The branch conditions.** -/
theorem branchTaken_eq (o : BranchOp) (a b : Word) :
    ExecutionUnit.branchTaken o.id a b = o.taken a b := by
  cases o
  case bne =>
    change (a != b) = decide (a ≠ b)
    by_cases h : a = b <;> simp [h]
  case bge => exact (decide_not).symm.trans (decide_eq_decide.mpr Int.not_lt)
  case bgeu => exact (decide_not).symm.trans (decide_eq_decide.mpr Nat.not_lt)
  all_goals rfl

/-! ## Alignment -/

/-- The low two bits as a remainder. -/
theorem low_two (a : Word) : (a.extractLsb' 0 2 != 0#2) = decide (a.toNat % 4 ≠ 0) := by
  have h : (a.extractLsb' 0 2).toNat = a.toNat % 4 := by simp [BitVec.extractLsb'_toNat]
  by_cases hz : a.toNat % 4 = 0
  · have : a.extractLsb' 0 2 = 0#2 := BitVec.eq_of_toNat_eq (by rw [h, hz]; rfl)
    simp [this, hz]
  · have : a.extractLsb' 0 2 ≠ 0#2 := fun he => hz (by rw [← h, he]; rfl)
    simp [this, hz]

/-- The low bit as a remainder. -/
theorem low_one (a : Word) : a.getLsbD 0 = decide (a.toNat % 2 ≠ 0) := by
  rw [BitVec.getLsbD, Nat.testBit_zero]
  exact decide_eq_decide.mpr (by omega)

/-! ## AMOs -/

/-- **The AMO operations.** -/
theorem newWord_eq (o : AmoOp) (a b : Word) : AtomicLsu.newWord o.id a b = o.eval a b := by
  cases o
  all_goals first
    | rfl
    | simp [AtomicLsu.newWord, AmoOp.id, AmoOp.eval, BitVec.sle, BitVec.ule]

end Synapse32
