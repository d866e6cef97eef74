import Synapse32.Core.Alu

/-! # The ALU on integers

Each arithmetic operation as a function on integers, its result cut to 32 bits; the two halves of a
product, the law of division with remainder and the sign that a shift replicates follow for all
operands. -/

namespace Synapse32

/-! ## Results on integers -/

/-- The result of a register operation before it is cut to a word. -/
def ROp.exact (a b : Word) : ROp → ℤ
  | add => a.toInt + b.toInt
  | sub => a.toInt - b.toInt
  | sll => a.toNat * 2 ^ (b.toNat % 32)
  | slt => if a.toInt < b.toInt then 1 else 0
  | sltu => if a.toNat < b.toNat then 1 else 0
  | xor => (a.toNat ^^^ b.toNat : ℕ)
  | srl => a.toNat / 2 ^ (b.toNat % 32)
  | sra => a.toInt / 2 ^ (b.toNat % 32)
  | or => (a.toNat ||| b.toNat : ℕ)
  | and => (a.toNat &&& b.toNat : ℕ)
  | mul => a.toInt * b.toInt
  | mulh => a.toInt * b.toInt / 2 ^ 32
  | mulhsu => a.toInt * b.toNat / 2 ^ 32
  | mulhu => a.toNat * b.toNat / 2 ^ 32
  | div => if b.toInt = 0 then -1 else a.toInt.tdiv b.toInt
  | divu => if b.toNat = 0 then 2 ^ 32 - 1 else a.toNat / b.toNat
  | rem => if b.toInt = 0 then a.toInt else a.toInt.tmod b.toInt
  | remu => if b.toNat = 0 then a.toNat else a.toNat % b.toNat

/-- The result of an immediate operation before it is cut to a word. -/
def IOp.exact (a imm : Word) : IOp → ℤ
  | addi => ROp.add.exact a imm
  | slti => ROp.slt.exact a imm
  | sltiu => ROp.sltu.exact a imm
  | xori => ROp.xor.exact a imm
  | ori => ROp.or.exact a imm
  | andi => ROp.and.exact a imm

/-- The result of a shift by an immediate before it is cut to a word: its low five bits count. -/
def ShiftOp.exact (a imm : Word) : ShiftOp → ℤ
  | slli => ROp.sll.exact a imm
  | srli => ROp.srl.exact a imm
  | srai => ROp.sra.exact a imm

/-- A comparison as a word. -/
theorem ofInt_flag (p : Prop) [Decidable p] :
    BitVec.ofInt 32 (if p then 1 else 0) = boolWord (decide p) := by
  by_cases h : p <;> simp [boolWord, h]

/-- An unsigned value as a word. -/
theorem ofInt_toNat (a : Word) : BitVec.ofInt 32 (a.toNat : ℤ) = a := by
  rw [BitVec.ofInt_natCast, BitVec.ofNat_toNat, BitVec.setWidth_eq]

/-- A left shift multiplies by a power of two. -/
theorem ofInt_shiftLeft (a : Word) (n : ℕ) : BitVec.ofInt 32 ((a.toNat : ℤ) * 2 ^ n) = a <<< n := by
  have hcast : (a.toNat : ℤ) * 2 ^ n = ((a.toNat * 2 ^ n : ℕ) : ℤ) := by push_cast; rfl
  apply BitVec.eq_of_toNat_eq
  rw [hcast, BitVec.ofInt_natCast, BitVec.toNat_ofNat, BitVec.toNat_shiftLeft, Nat.shiftLeft_eq]

/-- A logical right shift divides the unsigned value. -/
theorem ofInt_ushiftRight (a : Word) (n : ℕ) :
    BitVec.ofInt 32 ((a.toNat : ℤ) / 2 ^ n) = a >>> n := by
  have hcast : (a.toNat : ℤ) / 2 ^ n = ((a >>> n).toNat : ℤ) := by
    rw [BitVec.toNat_ushiftRight, Nat.shiftRight_eq_div_pow]
    push_cast
    rfl
  rw [hcast, ofInt_toNat]

/-- An arithmetic right shift divides the signed value, rounding down. -/
theorem ofInt_sshiftRight (a : Word) (n : ℕ) :
    BitVec.ofInt 32 (a.toInt / 2 ^ n) = a.sshiftRight n := by
  have hdiv : a.toInt / 2 ^ n = (a.sshiftRight n).toInt := by
    rw [BitVec.toInt_sshiftRight, Int.shiftRight_eq_div_pow]
    push_cast
    rfl
  rw [hdiv, BitVec.ofInt_toInt]

/-- Only the zero word has the signed value 0. -/
theorem toInt_eq_zero_iff {b : Word} : b.toInt = 0 ↔ b = 0#32 :=
  ⟨fun h => BitVec.eq_of_toInt_eq h, fun h => by rw [h]; rfl⟩

/-- Only the zero word has the unsigned value 0. -/
theorem toNat_eq_zero_iff {b : Word} : b.toNat = 0 ↔ b = 0#32 :=
  ⟨fun h => BitVec.eq_of_toNat_eq h, fun h => by rw [h]; rfl⟩

/-- The instruction set's definition of an operation is its integer result, cut to a word. -/
theorem ROp.eval_eq_exact (o : ROp) (a b : Word) : o.eval a b = BitVec.ofInt 32 (o.exact a b) := by
  cases o
  case add => rw [eval, exact, BitVec.ofInt_add, BitVec.ofInt_toInt, BitVec.ofInt_toInt]
  case sub =>
    rw [eval, exact, sub_eq_add_neg a.toInt, BitVec.ofInt_add, BitVec.ofInt_neg,
      BitVec.ofInt_toInt, BitVec.ofInt_toInt, BitVec.sub_eq_add_neg]
  case sll => exact (ofInt_shiftLeft a _).symm
  case srl => exact (ofInt_ushiftRight a _).symm
  case sra => exact (ofInt_sshiftRight a _).symm
  case slt => exact (ofInt_flag _).symm
  case sltu => exact (ofInt_flag _).symm
  case xor => rw [eval, exact, ← BitVec.toNat_xor, ofInt_toNat]
  case or => rw [eval, exact, ← BitVec.toNat_or, ofInt_toNat]
  case and => rw [eval, exact, ← BitVec.toNat_and, ofInt_toNat]
  case mul => rfl
  case mulh => rfl
  case mulhsu => rfl
  case mulhu => rfl
  case div =>
    -- The two ask for a zero divisor in different words.
    rw [eval, exact, apply_ite (BitVec.ofInt 32)]
    exact if_congr toInt_eq_zero_iff.symm rfl rfl
  case rem =>
    rw [eval, exact, apply_ite (BitVec.ofInt 32), BitVec.ofInt_toInt]
    exact if_congr toInt_eq_zero_iff.symm rfl rfl
  case divu =>
    rw [eval, exact, apply_ite (BitVec.ofInt 32)]
    exact if_congr toNat_eq_zero_iff.symm rfl rfl
  case remu =>
    rw [eval, exact, apply_ite (BitVec.ofInt 32), ofInt_toNat]
    exact if_congr toNat_eq_zero_iff.symm rfl rfl

/-- **An immediate operation gives the exact result**, cut off to 32 bits. -/
theorem IOp.eval_eq_exact (o : IOp) (a imm : Word) :
    o.eval a imm = BitVec.ofInt 32 (o.exact a imm) := by
  cases o
  case addi => exact ROp.add.eval_eq_exact a imm
  case slti => exact ROp.slt.eval_eq_exact a imm
  case sltiu => exact ROp.sltu.eval_eq_exact a imm
  case xori => exact ROp.xor.eval_eq_exact a imm
  case ori => exact ROp.or.eval_eq_exact a imm
  case andi => exact ROp.and.eval_eq_exact a imm

/-- **A shift by an immediate gives the exact result**, cut off to 32 bits. -/
theorem alu_shift_exact (o : ShiftOp) (a b imm : Word) :
    alu a b imm o.id = BitVec.ofInt 32 (o.exact a imm) := by
  cases o
  case slli => exact (congrArg (a <<< ·) (toNat_shamt imm)).trans (ROp.sll.eval_eq_exact a imm)
  case srli => exact (congrArg (a >>> ·) (toNat_shamt imm)).trans (ROp.srl.eval_eq_exact a imm)
  case srai => exact (congrArg a.sshiftRight (toNat_shamt imm)).trans (ROp.sra.eval_eq_exact a imm)

/-! ## Products -/

/-- The halves of a 64-bit number, each cut from an integer. -/
theorem ofInt_append (z : ℤ) :
    BitVec.ofInt 32 (z / 2 ^ 32) ++ BitVec.ofInt 32 z = BitVec.ofInt 64 z := by
  rw [← ofInt_high, ← ofInt_low z]
  apply BitVec.eq_of_getLsbD_eq
  intro k hk
  rw [BitVec.getLsbD_append, BitVec.getLsbD_extractLsb', BitVec.getLsbD_extractLsb']
  by_cases hlow : k < 32
  · simp [hlow]
  · simp [hlow, show k - 32 < 32 by omega, show 32 + (k - 32) = k by omega]

/-- The low half of a product does not depend on how the factors are read. -/
theorem ofInt_mul_toNat (a b : Word) :
    BitVec.ofInt 32 (a.toInt * b.toInt) = BitVec.ofInt 32 (a.toInt * b.toNat) ∧
      BitVec.ofInt 32 (a.toInt * b.toInt) = BitVec.ofInt 32 (a.toNat * b.toNat) := by
  simp only [BitVec.ofInt_mul, BitVec.ofInt_toInt, ofInt_toNat, and_self]

/-- The signed value of a word has 31 bits and a sign. -/
theorem toInt_bounds (a : Word) : -2 ^ 31 ≤ a.toInt ∧ a.toInt < 2 ^ 31 :=
  ⟨BitVec.le_toInt a, BitVec.toInt_lt⟩

/-- A product of a signed word and a factor of 33 bits fits in 64 bits. -/
theorem toInt_ofInt_mul (a : Word) {y : ℤ} (hl : -2 ^ 31 ≤ y) (hu : y < 2 ^ 32) :
    (BitVec.ofInt 64 (a.toInt * y)).toInt = a.toInt * y := by
  have ha : |a.toInt| ≤ 2 ^ 31 := abs_le.mpr ⟨(toInt_bounds a).1, (toInt_bounds a).2.le⟩
  have hy : |y| ≤ 2 ^ 32 - 1 := abs_le.mpr ⟨by omega, by omega⟩
  have hprod : |a.toInt * y| ≤ 2 ^ 31 * (2 ^ 32 - 1) := by
    rw [abs_mul]
    exact mul_le_mul ha hy (abs_nonneg y) (by norm_num)
  obtain ⟨hlow, hhigh⟩ := abs_le.mp hprod
  apply BitVec.toInt_ofInt_eq_self (by decide)
  · exact le_trans (by norm_num) hlow
  · exact lt_of_le_of_lt hhigh (by norm_num)

/-- MULH and MUL make up the signed product. -/
theorem mul_signed (a b imm : Word) :
    (alu a b imm .mulh ++ alu a b imm .mul).toInt = a.toInt * b.toInt := by
  rw [show InstrId.mulh = ROp.mulh.id from rfl, show InstrId.mul = ROp.mul.id from rfl, alu_op,
    alu_op, ROp.eval, ROp.eval, ofInt_append]
  have hb := toInt_bounds b
  exact toInt_ofInt_mul a hb.1 (by omega)

/-- MULHSU and MUL make up the product of a signed and an unsigned operand. -/
theorem mul_mixed (a b imm : Word) :
    (alu a b imm .mulhsu ++ alu a b imm .mul).toInt = a.toInt * b.toNat := by
  rw [show InstrId.mulhsu = ROp.mulhsu.id from rfl, show InstrId.mul = ROp.mul.id from rfl, alu_op,
    alu_op, ROp.eval, ROp.eval, (ofInt_mul_toNat a b).1, ofInt_append]
  have hb := b.isLt
  exact toInt_ofInt_mul a (by omega) (by omega)

/-- MULHU and MUL make up the unsigned product. -/
theorem mul_unsigned (a b imm : Word) :
    (alu a b imm .mulhu ++ alu a b imm .mul).toNat = a.toNat * b.toNat := by
  rw [show InstrId.mulhu = ROp.mulhu.id from rfl, show InstrId.mul = ROp.mul.id from rfl, alu_op,
    alu_op, ROp.eval, ROp.eval, (ofInt_mul_toNat a b).2, ofInt_append, ← Nat.cast_mul,
    BitVec.ofInt_natCast, BitVec.toNat_ofNat]
  apply Nat.mod_eq_of_lt
  have ha := a.isLt
  have hb := b.isLt
  calc a.toNat * b.toNat < 2 ^ 32 * 2 ^ 32 := Nat.mul_lt_mul'' ha hb
    _ = 2 ^ 64 := by norm_num

/-! ## Division -/

/-- Quotient and remainder of the signed operations as bit vectors. -/
theorem div_of_ne_zero {b : Word} (hb : b ≠ 0#32) (a imm : Word) :
    alu a b imm .div = a.sdiv b ∧ alu a b imm .rem = a.srem b := by
  rw [show InstrId.div = ROp.div.id from rfl, show InstrId.rem = ROp.rem.id from rfl, alu_op,
    alu_op, ROp.eval, ROp.eval, if_neg hb, if_neg hb]
  exact ⟨(sdiv_eq_ofInt a b).symm, (srem_eq_ofInt a b).symm⟩

/-- **Signed division with remainder**, for every divisor. -/
theorem div_rem (a b imm : Word) : a = alu a b imm .div * b + alu a b imm .rem := by
  by_cases hb : b = 0#32
  · subst hb
    show a = 0xFFFFFFFF#32 * 0#32 + a
    rw [BitVec.mul_zero, BitVec.zero_add]
  · obtain ⟨hq, hr⟩ := div_of_ne_zero hb a imm
    have hsum : a.toInt.tdiv b.toInt * b.toInt + a.toInt.tmod b.toInt = a.toInt :=
      Int.tdiv_mul_add_tmod _ _
    calc a = BitVec.ofInt 32 a.toInt := BitVec.ofInt_toInt.symm
      _ = BitVec.ofInt 32 (a.toInt.tdiv b.toInt * b.toInt + a.toInt.tmod b.toInt) := by rw [hsum]
      _ = BitVec.ofInt 32 (a.toInt.tdiv b.toInt) * b + BitVec.ofInt 32 (a.toInt.tmod b.toInt) := by
        rw [BitVec.ofInt_add, BitVec.ofInt_mul, BitVec.ofInt_toInt]
      _ = alu a b imm .div * b + alu a b imm .rem := by
        rw [hq, hr, sdiv_eq_ofInt, srem_eq_ofInt]

/-- **Unsigned division with remainder**, for every divisor. -/
theorem divu_remu (a b imm : Word) : a = alu a b imm .divu * b + alu a b imm .remu := by
  by_cases hb : b = 0#32
  · subst hb
    show a = 0xFFFFFFFF#32 * 0#32 + a
    rw [BitVec.mul_zero, BitVec.zero_add]
  · have hq : alu a b imm .divu = a / b := if_neg hb
    have hr : alu a b imm .remu = a % b := if_neg hb
    have hsum : a.toNat / b.toNat * b.toNat + a.toNat % b.toNat = a.toNat := Nat.div_add_mod' _ _
    apply BitVec.eq_of_toNat_eq
    rw [hq, hr, BitVec.toNat_add, BitVec.toNat_mul, BitVec.toNat_udiv, BitVec.toNat_umod,
      Nat.mod_add_mod, hsum, Nat.mod_eq_of_lt a.isLt]

/-- **Truncating division.** With a divisor that is not zero, and no overflow, the remainder is
smaller than the divisor and has the dividend's sign. -/
theorem div_rem_truncates {a b : Word} (hb : b ≠ 0#32)
    (hno : ¬ (a = 0x80000000#32 ∧ b = 0xFFFFFFFF#32)) (imm : Word) :
    a.toInt = (alu a b imm .div).toInt * b.toInt + (alu a b imm .rem).toInt ∧
      (alu a b imm .rem).toInt.natAbs < b.toInt.natAbs ∧
      (0 ≤ a.toInt → 0 ≤ (alu a b imm .rem).toInt) ∧
      (a.toInt ≤ 0 → (alu a b imm .rem).toInt ≤ 0) := by
  obtain ⟨hq, hr⟩ := div_of_ne_zero hb a imm
  have hno' : a ≠ BitVec.intMin 32 ∨ b ≠ -1#32 := by
    by_contra hboth
    obtain ⟨ha, hb'⟩ := not_or.mp hboth
    exact hno ⟨(not_not.mp ha).trans (by decide), (not_not.mp hb').trans (by decide)⟩
  rw [hq, hr, BitVec.toInt_sdiv_of_ne_or_ne a b hno', BitVec.toInt_srem]
  refine ⟨(Int.tdiv_mul_add_tmod _ _).symm, ?_, fun h => Int.tmod_nonneg _ h, ?_⟩
  · rw [Int.natAbs_tmod]
    apply Nat.mod_lt
    have hne := mt toInt_eq_zero_iff.mp hb
    omega
  · intro h
    have hneg := Int.tmod_nonneg b.toInt (Int.neg_nonneg_of_nonpos h)
    rw [Int.neg_tmod] at hneg
    omega

/-- DIVU and REMU give quotient and remainder of the unsigned values. -/
theorem divu_remu_truncates {b : Word} (hb : b ≠ 0#32) (a imm : Word) :
    a.toNat = (alu a b imm .divu).toNat * b.toNat + (alu a b imm .remu).toNat ∧
      (alu a b imm .remu).toNat < b.toNat := by
  have hq : alu a b imm .divu = a / b := if_neg hb
  have hr : alu a b imm .remu = a % b := if_neg hb
  rw [hq, hr, BitVec.toNat_udiv, BitVec.toNat_umod]
  refine ⟨(Nat.div_add_mod' _ _).symm, Nat.mod_lt _ ?_⟩
  have hne := mt toNat_eq_zero_iff.mp hb
  omega

/-! ## The ALU -/

/-- A right shift of `a` by `n` places that replicates the sign. -/
def ReplicatesSign (a : Word) (n : ℕ) (out : Word) : Prop :=
  ∀ k < 32, out.getLsbD k = if n + k < 32 then a.getLsbD (n + k) else a.msb

/-- `sshiftRight` is a right shift that replicates the sign. -/
theorem replicatesSign_sshiftRight (a : Word) (n : ℕ) :
    ReplicatesSign a n (a.sshiftRight n) := by
  intro k hk
  rw [BitVec.getLsbD_sshiftRight]
  simp [show ¬ 32 ≤ k by omega]

/-- What the outputs of `alu.v` are as functions of integers. -/
structure AluExact (a b imm : Word) : Prop where
  op : ∀ o : ROp, alu a b imm o.id = BitVec.ofInt 32 (o.exact a b)
  opImm : ∀ o : IOp, alu a b imm o.id = BitVec.ofInt 32 (o.exact a imm)
  shift : ∀ o : ShiftOp, alu a b imm o.id = BitVec.ofInt 32 (o.exact a imm)
  mulSigned : (alu a b imm .mulh ++ alu a b imm .mul).toInt = a.toInt * b.toInt
  mulMixed : (alu a b imm .mulhsu ++ alu a b imm .mul).toInt = a.toInt * b.toNat
  mulUnsigned : (alu a b imm .mulhu ++ alu a b imm .mul).toNat = a.toNat * b.toNat
  /-- Modulo `2 ^ 32`, whatever the divisor. -/
  divRem : a = alu a b imm .div * b + alu a b imm .rem
  divuRemu : a = alu a b imm .divu * b + alu a b imm .remu
  truncates : b ≠ 0#32 → ¬ (a = 0x80000000#32 ∧ b = 0xFFFFFFFF#32) →
    a.toInt = (alu a b imm .div).toInt * b.toInt + (alu a b imm .rem).toInt ∧
      (alu a b imm .rem).toInt.natAbs < b.toInt.natAbs ∧
      (0 ≤ a.toInt → 0 ≤ (alu a b imm .rem).toInt) ∧
      (a.toInt ≤ 0 → (alu a b imm .rem).toInt ≤ 0)
  truncatesu : b ≠ 0#32 →
    a.toNat = (alu a b imm .divu).toNat * b.toNat + (alu a b imm .remu).toNat ∧
      (alu a b imm .remu).toNat < b.toNat
  sra : ReplicatesSign a (b.toNat % 32) (alu a b imm .sra)
  srai : ReplicatesSign a (imm.toNat % 32) (alu a b imm .srai)

/-- **The ALU computes on integers.** -/
theorem alu_exact (a b imm : Word) : AluExact a b imm where
  op o := (alu_op o a b imm).trans (o.eval_eq_exact a b)
  opImm o := (alu_opImm o a b imm).trans (o.eval_eq_exact a imm)
  shift o := alu_shift_exact o a b imm
  mulSigned := mul_signed a b imm
  mulMixed := mul_mixed a b imm
  mulUnsigned := mul_unsigned a b imm
  divRem := div_rem a b imm
  divuRemu := divu_remu a b imm
  truncates hb hno := div_rem_truncates hb hno imm
  truncatesu hb := divu_remu_truncates hb a imm
  sra := by
    show ReplicatesSign a _ (a.sshiftRight (b.extractLsb' 0 5).toNat)
    rw [toNat_shamt]
    exact replicatesSign_sshiftRight a _
  srai := by
    show ReplicatesSign a _ (a.sshiftRight (imm.extractLsb' 0 5).toNat)
    rw [toNat_shamt]
    exact replicatesSign_sshiftRight a _

end Synapse32
