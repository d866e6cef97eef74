import Synapse32.Rtl.Decoder
import Synapse32.Isa.Instr

/-! # The decoder decodes the instruction set

What `decoder.v` makes of the encoding of each instruction: its operands, its immediate and its
id. -/

namespace Synapse32

/-! ## Instruction ids -/

/-- The id of a register-register operation. -/
def ROp.id : ROp → InstrId
  | add => .add
  | sub => .sub
  | sll => .sll
  | slt => .slt
  | sltu => .sltu
  | xor => .xor
  | srl => .srl
  | sra => .sra
  | or => .or
  | and => .and
  | mul => .mul
  | mulh => .mulh
  | mulhsu => .mulhsu
  | mulhu => .mulhu
  | div => .div
  | divu => .divu
  | rem => .rem
  | remu => .remu

/-- The id of a register-immediate operation. -/
def IOp.id : IOp → InstrId
  | addi => .addi
  | slti => .slti
  | sltiu => .sltiu
  | xori => .xori
  | ori => .ori
  | andi => .andi

/-- The id of a shift by an immediate. -/
def ShiftOp.id : ShiftOp → InstrId
  | slli => .slli
  | srli => .srli
  | srai => .srai

/-- The id of a load. -/
def LoadOp.id : LoadOp → InstrId
  | lb => .lb
  | lh => .lh
  | lw => .lw
  | lbu => .lbu
  | lhu => .lhu

/-- The id of a store. -/
def StoreOp.id : StoreOp → InstrId
  | sb => .sb
  | sh => .sh
  | sw => .sw

/-- The id of a branch. -/
def BranchOp.id : BranchOp → InstrId
  | beq => .beq
  | bne => .bne
  | blt => .blt
  | bge => .bge
  | bltu => .bltu
  | bgeu => .bgeu

/-- The id of an AMO. -/
def AmoOp.id : AmoOp → InstrId
  | swap => .amoswapW
  | add => .amoaddW
  | and => .amoandW
  | or => .amoorW
  | xor => .amoxorW
  | max => .amomaxW
  | min => .amominW
  | maxu => .amomaxuW
  | minu => .amominuW

/-- **The decoder's output for an instruction.** -/
def Instr.decoded (i : Instr) : Decoded :=
  match i with
  | .op o rd rs1 rs2 => ⟨rs2, rs1, 0#32, rd, true, true, true, 0b0110011#7, o.id⟩
  | .opImm o rd rs1 imm =>
    ⟨0#5, rs1, imm.signExtend 32, rd, true, false, true, 0b0010011#7, o.id⟩
  | .shift o rd rs1 shamt =>
    ⟨0#5, rs1, (o.funct7 ++ shamt).signExtend 32, rd, true, false, true, 0b0010011#7, o.id⟩
  | .load o rd rs1 imm =>
    ⟨0#5, rs1, imm.signExtend 32, rd, true, false, true, 0b0000011#7, o.id⟩
  | .store o rs1 rs2 imm =>
    ⟨rs2, rs1, imm.signExtend 32, 0#5, true, true, false, 0b0100011#7, o.id⟩
  | .branch o rs1 rs2 off =>
    ⟨rs2, rs1, (off ++ 0#1).signExtend 32, 0#5, true, true, false, 0b1100011#7, o.id⟩
  | .jal rd off =>
    ⟨0#5, 0#5, (off ++ 0#1).signExtend 32, rd, false, false, true, 0b1101111#7, .jal⟩
  | .jalr rd rs1 imm =>
    ⟨0#5, rs1, imm.signExtend 32, rd, true, false, true, 0b1100111#7, .jalr⟩
  | .lui rd imm => ⟨0#5, 0#5, imm ++ 0#12, rd, false, false, true, 0b0110111#7, .lui⟩
  | .auipc rd imm => ⟨0#5, 0#5, imm ++ 0#12, rd, false, false, true, 0b0010111#7, .auipc⟩
  | .lr _ rd rs1 => ⟨0#5, rs1, 0#32, rd, true, false, true, 0b0101111#7, .lrW⟩
  | .sc _ rd rs1 rs2 => ⟨rs2, rs1, 0#32, rd, true, true, true, 0b0101111#7, .scW⟩
  | .amo o _ rd rs1 rs2 => ⟨rs2, rs1, 0#32, rd, true, true, true, 0b0101111#7, o.id⟩
  | .fence bits rd rs1 =>
    ⟨0#5, 0#5, 0#32, 0#5, false, false, false, 0b0001111#7,
      if (Instr.fence bits rd rs1).encode = 0x0100000f#32 then .pause else .fence⟩

/-! ## Fields of the R layout -/

section Fields

variable (f7 : BitVec 7) (rs2 rs1 : BitVec 5) (f3 : BitVec 3) (rd : BitVec 5) (op : BitVec 7)

/-- The opcode field. -/
theorem instrWord_opcode : (instrWord f7 rs2 rs1 f3 rd op).extractLsb' 0 7 = op := by
  simp only [instrWord]
  iterate 5 rw [BitVec.extractLsb'_append_eq_of_add_le (by omega)]
  exact BitVec.extractLsb'_eq_self

/-- The `rd` field. -/
theorem instrWord_rd : (instrWord f7 rs2 rs1 f3 rd op).extractLsb' 7 5 = rd := by
  simp only [instrWord]
  iterate 4 rw [BitVec.extractLsb'_append_eq_of_add_le (by omega)]
  rw [BitVec.extractLsb'_append_eq_of_le (by omega)]
  exact BitVec.extractLsb'_eq_self

/-- The `funct3` field. -/
theorem instrWord_funct3 : (instrWord f7 rs2 rs1 f3 rd op).extractLsb' 12 3 = f3 := by
  simp only [instrWord]
  iterate 3 rw [BitVec.extractLsb'_append_eq_of_add_le (by omega)]
  rw [BitVec.extractLsb'_append_eq_of_le (by omega)]
  exact BitVec.extractLsb'_eq_self

/-- The `rs1` field. -/
theorem instrWord_rs1 : (instrWord f7 rs2 rs1 f3 rd op).extractLsb' 15 5 = rs1 := by
  simp only [instrWord]
  iterate 2 rw [BitVec.extractLsb'_append_eq_of_add_le (by omega)]
  rw [BitVec.extractLsb'_append_eq_of_le (by omega)]
  exact BitVec.extractLsb'_eq_self

/-- The `rs2` field. -/
theorem instrWord_rs2 : (instrWord f7 rs2 rs1 f3 rd op).extractLsb' 20 5 = rs2 := by
  simp only [instrWord]
  rw [BitVec.extractLsb'_append_eq_of_add_le (by omega),
    BitVec.extractLsb'_append_eq_of_le (by omega)]
  exact BitVec.extractLsb'_eq_self

/-- The `funct7` field. -/
theorem instrWord_funct7 : (instrWord f7 rs2 rs1 f3 rd op).extractLsb' 25 7 = f7 := by
  simp only [instrWord]
  rw [BitVec.extractLsb'_append_eq_of_le (by omega)]
  exact BitVec.extractLsb'_eq_self

/-- A slice of `funct7`. -/
theorem instrWord_funct7_slice (start len : ℕ) :
    (instrWord f7 rs2 rs1 f3 rd op).extractLsb' (25 + start) len = f7.extractLsb' start len := by
  simp only [instrWord]
  rw [BitVec.extractLsb'_append_eq_of_le (by omega)]
  congr 1
  omega

/-- A slice of `rs2`. -/
theorem instrWord_rs2_slice (start len : ℕ) (h : start + len ≤ 5) :
    (instrWord f7 rs2 rs1 f3 rd op).extractLsb' (20 + start) len = rs2.extractLsb' start len := by
  simp only [instrWord]
  rw [BitVec.extractLsb'_append_eq_of_add_le (by omega),
    BitVec.extractLsb'_append_eq_of_le (by omega)]
  congr 1
  omega

/-- A slice of `rd`. -/
theorem instrWord_rd_slice (start len : ℕ) (h : start + len ≤ 5) :
    (instrWord f7 rs2 rs1 f3 rd op).extractLsb' (7 + start) len = rd.extractLsb' start len := by
  simp only [instrWord]
  iterate 4 rw [BitVec.extractLsb'_append_eq_of_add_le (by omega)]
  rw [BitVec.extractLsb'_append_eq_of_le (by omega)]
  congr 1
  omega

/-- The immediate field of the I layout. -/
theorem instrWord_imm : (instrWord f7 rs2 rs1 f3 rd op).extractLsb' 20 12 = f7 ++ rs2 := by
  have h : (instrWord f7 rs2 rs1 f3 rd op).extractLsb' 25 7 ++
      (instrWord f7 rs2 rs1 f3 rd op).extractLsb' 20 5 =
        (instrWord f7 rs2 rs1 f3 rd op).extractLsb' 20 12 :=
    BitVec.extractLsb'_append_extractLsb'_eq_extractLsb' rfl
  rw [← h, instrWord_funct7, instrWord_rs2]

/-- The high byte of the J layout's lower half. -/
theorem instrWord_rs1_funct3 :
    (instrWord f7 rs2 rs1 f3 rd op).extractLsb' 12 8 = rs1 ++ f3 := by
  have h : (instrWord f7 rs2 rs1 f3 rd op).extractLsb' 15 5 ++
      (instrWord f7 rs2 rs1 f3 rd op).extractLsb' 12 3 =
        (instrWord f7 rs2 rs1 f3 rd op).extractLsb' 12 8 :=
    BitVec.extractLsb'_append_extractLsb'_eq_extractLsb' rfl
  rw [← h, instrWord_rs1, instrWord_funct3]

/-- The immediate field of the U layout. -/
theorem instrWord_upper :
    (instrWord f7 rs2 rs1 f3 rd op).extractLsb' 12 20 = f7 ++ (rs2 ++ (rs1 ++ f3)) := by
  have h1 : (instrWord f7 rs2 rs1 f3 rd op).extractLsb' 20 5 ++
      (instrWord f7 rs2 rs1 f3 rd op).extractLsb' 12 8 =
        (instrWord f7 rs2 rs1 f3 rd op).extractLsb' 12 13 :=
    BitVec.extractLsb'_append_extractLsb'_eq_extractLsb' rfl
  have h2 : (instrWord f7 rs2 rs1 f3 rd op).extractLsb' 25 7 ++
      (instrWord f7 rs2 rs1 f3 rd op).extractLsb' 12 13 =
        (instrWord f7 rs2 rs1 f3 rd op).extractLsb' 12 20 :=
    BitVec.extractLsb'_append_extractLsb'_eq_extractLsb' rfl
  rw [← h2, ← h1, instrWord_funct7, instrWord_rs2, instrWord_rs1_funct3]

end Fields

/-! ## Immediates put together again -/

/-- Two neighbouring slices are one. -/
theorem slices_append {w : ℕ} (x : BitVec w) (start len len' : ℕ) :
    x.extractLsb' (start + len) len' ++ x.extractLsb' start len =
      x.extractLsb' start (len' + len) :=
  BitVec.extractLsb'_append_extractLsb'_eq_extractLsb' rfl

/-- The I and S immediates. -/
theorem slices_imm (imm : BitVec 12) : imm.extractLsb' 5 7 ++ imm.extractLsb' 0 5 = imm :=
  (slices_append imm 0 5 7).trans BitVec.extractLsb'_eq_self

/-- The U immediate. -/
theorem slices_upper (imm : BitVec 20) :
    imm.extractLsb' 13 7 ++ (imm.extractLsb' 8 5 ++
      (imm.extractLsb' 3 5 ++ imm.extractLsb' 0 3)) = imm := by
  have h1 := slices_append imm 0 3 5
  have h2 := slices_append imm 0 8 5
  have h3 := slices_append imm 0 13 7
  exact (congrArg _ ((congrArg _ h1).trans h2)).trans (h3.trans BitVec.extractLsb'_eq_self)

/-- The B immediate. -/
theorem slices_branch (off : BitVec 12) :
    off.extractLsb' 11 1 ++ off.extractLsb' 10 1 ++ off.extractLsb' 4 6 ++ off.extractLsb' 0 4 =
      off := by
  have h1 := slices_append off 10 1 1
  have h2 := slices_append off 4 6 2
  have h3 := slices_append off 0 4 8
  rw [h1, h2, h3]
  exact BitVec.extractLsb'_eq_self

/-- The J immediate. -/
theorem slices_jump (off : BitVec 20) :
    off.extractLsb' 19 1 ++ (off.extractLsb' 14 5 ++ off.extractLsb' 11 3) ++
      off.extractLsb' 10 1 ++ off.extractLsb' 4 6 ++ off.extractLsb' 0 4 = off := by
  have h0 := slices_append off 11 3 5
  have h1 := slices_append off 11 8 1
  have h2 := slices_append off 10 1 9
  have h3 := slices_append off 4 6 10
  have h4 := slices_append off 0 4 16
  rw [h0, h1, h2, h3, h4]
  exact BitVec.extractLsb'_eq_self

/-! ## The decoder on an encoding -/

section Decode

variable (f7 : BitVec 7) (rs2 rs1 : BitVec 5) (f3 : BitVec 3) (rd : BitVec 5) (op : BitVec 7)

/-- The decoder finds the opcode. -/
theorem opcode_instrWord : Decoder.opcode (instrWord f7 rs2 rs1 f3 rd op) = op :=
  instrWord_opcode f7 rs2 rs1 f3 rd op

/-- The decoder finds `funct3`. -/
theorem func3_instrWord : Decoder.func3 (instrWord f7 rs2 rs1 f3 rd op) = f3 :=
  instrWord_funct3 f7 rs2 rs1 f3 rd op

/-- The decoder finds `funct5`. -/
theorem funct5_instrWord :
    Decoder.funct5 (instrWord f7 rs2 rs1 f3 rd op) = f7.extractLsb' 2 5 :=
  instrWord_funct7_slice f7 rs2 rs1 f3 rd op 2 5

/-- The decoder finds `funct7` in the R-type formats. -/
theorem func7_instrWord (h : Decoder.isR op = true) :
    Decoder.func7 (instrWord f7 rs2 rs1 f3 rd op) = f7 := by
  rw [Decoder.func7, opcode_instrWord, h, if_pos rfl, instrWord_funct7]

/-- The decoder's output, field by field. -/
theorem decoder_instrWord :
    decoder (instrWord f7 rs2 rs1 f3 rd op) =
      { rs2 := if Decoder.isR op || Decoder.isS op || Decoder.isB op || Decoder.isAmo op
          then rs2 else 0#5
        rs1 := if Decoder.isR op || Decoder.isS op || Decoder.isB op || Decoder.isI op ||
          Decoder.isCsr op || Decoder.isAmo op then rs1 else 0#5
        imm := Decoder.imm (instrWord f7 rs2 rs1 f3 rd op)
        rd := if Decoder.isR op || Decoder.isU op || Decoder.isJ op || Decoder.isI op ||
          Decoder.isCsr op || Decoder.isAmo op then rd else 0#5
        rs1Valid := Decoder.isR op || Decoder.isI op || Decoder.isS op || Decoder.isB op ||
          (Decoder.isCsr op && !f3.getLsbD 2) || Decoder.isAmo op
        rs2Valid := Decoder.isR op || Decoder.isS op || Decoder.isB op ||
          (Decoder.isAmo op && f7.extractLsb' 2 5 != 0b00010#5)
        rdValid := Decoder.isR op || Decoder.isU op || Decoder.isJ op || Decoder.isI op ||
          Decoder.isCsr op || Decoder.isAmo op
        opcode := op
        instrId := Decoder.instrId (instrWord f7 rs2 rs1 f3 rd op) } := by
  simp only [decoder, opcode_instrWord, func3_instrWord, funct5_instrWord, instrWord_rs2,
    instrWord_rs1, instrWord_rd]

/-- The I immediate. -/
theorem imm_of_isI (imm : BitVec 12) (h : Decoder.isI op = true) :
    Decoder.imm (instrWord (imm.extractLsb' 5 7) (imm.extractLsb' 0 5) rs1 f3 rd op) =
      imm.signExtend 32 := by
  rw [Decoder.imm, opcode_instrWord]
  rw [if_pos h, instrWord_imm, slices_imm]

/-- The shift amount sits in the I immediate. -/
theorem imm_of_shift : Decoder.imm (instrWord f7 rs2 rs1 f3 rd 0b0010011#7) =
    (f7 ++ rs2).signExtend 32 := by
  rw [Decoder.imm, opcode_instrWord]
  rw [if_pos (by decide), instrWord_imm]

/-- The S immediate. -/
theorem imm_of_store (imm : BitVec 12) :
    Decoder.imm (instrWord (imm.extractLsb' 5 7) rs2 rs1 f3 (imm.extractLsb' 0 5) 0b0100011#7) =
      imm.signExtend 32 := by
  rw [Decoder.imm, opcode_instrWord]
  rw [if_neg (by decide), if_pos (by decide), instrWord_funct7, instrWord_rd, slices_imm]

/-- The B immediate. -/
theorem imm_of_branch (off : BitVec 12) :
    Decoder.imm (instrWord (off.extractLsb' 11 1 ++ off.extractLsb' 4 6) rs2 rs1 f3
      (off.extractLsb' 0 4 ++ off.extractLsb' 10 1) 0b1100011#7) = (off ++ 0#1).signExtend 32 := by
  have h31 : (off.extractLsb' 11 1 ++ off.extractLsb' 4 6).extractLsb' 6 1 =
      off.extractLsb' 11 1 := BitVec.extractLsb'_append_eq_left
  have h25 : (off.extractLsb' 11 1 ++ off.extractLsb' 4 6).extractLsb' 0 6 =
      off.extractLsb' 4 6 := by
    rw [BitVec.extractLsb'_append_eq_of_add_le (by omega)]
    exact BitVec.extractLsb'_eq_self
  have h7 : (off.extractLsb' 0 4 ++ off.extractLsb' 10 1).extractLsb' 0 1 =
      off.extractLsb' 10 1 := by
    rw [BitVec.extractLsb'_append_eq_of_add_le (by omega)]
    exact BitVec.extractLsb'_eq_self
  have h8 : (off.extractLsb' 0 4 ++ off.extractLsb' 10 1).extractLsb' 1 4 =
      off.extractLsb' 0 4 := BitVec.extractLsb'_append_eq_left
  rw [Decoder.imm, opcode_instrWord, if_neg (by decide), if_neg (by decide), if_pos (by decide)]
  rw [instrWord_funct7_slice _ _ _ _ _ _ 6 1, instrWord_funct7_slice _ _ _ _ _ _ 0 6,
    instrWord_rd_slice _ _ _ _ _ _ 0 1 (by omega), instrWord_rd_slice _ _ _ _ _ _ 1 4 (by omega),
    h31, h25, h7, h8, slices_branch]

/-- The U immediate. -/
theorem imm_of_upper (imm : BitVec 20) (h : Decoder.isU op = true) :
    Decoder.imm (instrWord (imm.extractLsb' 13 7) (imm.extractLsb' 8 5) (imm.extractLsb' 3 5)
      (imm.extractLsb' 0 3) rd op) = imm ++ 0#12 := by
  have hop : op = 0b0010111#7 ∨ op = 0b0110111#7 := by
    simpa [Decoder.isU] using h
  have hnot : Decoder.isI op = false ∧ Decoder.isS op = false ∧ Decoder.isB op = false := by
    rcases hop with rfl | rfl <;> decide
  rw [Decoder.imm, opcode_instrWord, hnot.1, hnot.2.1, hnot.2.2, h, instrWord_upper, slices_upper]
  rfl

/-- The J immediate. -/
theorem imm_of_jal (off : BitVec 20) :
    Decoder.imm (instrWord (off.extractLsb' 19 1 ++ off.extractLsb' 4 6)
      (off.extractLsb' 0 4 ++ off.extractLsb' 10 1) (off.extractLsb' 14 5)
      (off.extractLsb' 11 3) rd 0b1101111#7) = (off ++ 0#1).signExtend 32 := by
  have h31 : (off.extractLsb' 19 1 ++ off.extractLsb' 4 6).extractLsb' 6 1 =
      off.extractLsb' 19 1 := BitVec.extractLsb'_append_eq_left
  have h25 : (off.extractLsb' 19 1 ++ off.extractLsb' 4 6).extractLsb' 0 6 =
      off.extractLsb' 4 6 := by
    rw [BitVec.extractLsb'_append_eq_of_add_le (by omega)]
    exact BitVec.extractLsb'_eq_self
  have h20 : (off.extractLsb' 0 4 ++ off.extractLsb' 10 1).extractLsb' 0 1 =
      off.extractLsb' 10 1 := by
    rw [BitVec.extractLsb'_append_eq_of_add_le (by omega)]
    exact BitVec.extractLsb'_eq_self
  have h21 : (off.extractLsb' 0 4 ++ off.extractLsb' 10 1).extractLsb' 1 4 =
      off.extractLsb' 0 4 := BitVec.extractLsb'_append_eq_left
  rw [Decoder.imm, opcode_instrWord, if_neg (by decide), if_neg (by decide), if_neg (by decide),
    if_neg (by decide), if_pos (by decide)]
  rw [instrWord_funct7_slice _ _ _ _ _ _ 6 1, instrWord_rs1_funct3,
    instrWord_rs2_slice _ _ _ _ _ _ 0 1 (by omega), instrWord_funct7_slice _ _ _ _ _ _ 0 6,
    instrWord_rs2_slice _ _ _ _ _ _ 1 4 (by omega), h31, h25, h20, h21, slices_jump]

/-- The other formats have none. -/
theorem imm_of_none (h : (Decoder.isI op || Decoder.isS op || Decoder.isB op || Decoder.isU op ||
    Decoder.isJ op || Decoder.isCsr op) = false) :
    Decoder.imm (instrWord f7 rs2 rs1 f3 rd op) = 0#32 := by
  simp only [Bool.or_eq_false_iff] at h
  obtain ⟨⟨⟨⟨⟨hi, hs⟩, hb⟩, hu⟩, hj⟩, hc⟩ := h
  rw [Decoder.imm, opcode_instrWord, hi, hs, hb, hu, hj, hc]
  rfl

/-- The table an opcode selects. -/
theorem instrId_op : Decoder.instrId (instrWord f7 rs2 rs1 f3 rd 0b0110011#7) =
    Decoder.rTypeId f7 f3 := by
  rw [Decoder.instrId, opcode_instrWord, if_pos rfl, func7_instrWord _ _ _ _ _ _ rfl,
    func3_instrWord]

/-- An OP-IMM word is told apart by `iTypeId`. -/
theorem instrId_opImm : Decoder.instrId (instrWord f7 rs2 rs1 f3 rd 0b0010011#7) =
    Decoder.iTypeId f3 (((f7 ++ rs2).signExtend 32).extractLsb' 5 7) := by
  rw [Decoder.instrId, opcode_instrWord, if_neg (by decide), if_pos rfl, func3_instrWord,
    imm_of_shift]

/-- A LOAD word is told apart by `loadId`. -/
theorem instrId_load : Decoder.instrId (instrWord f7 rs2 rs1 f3 rd 0b0000011#7) =
    Decoder.loadId f3 := by
  rw [Decoder.instrId, opcode_instrWord, func3_instrWord]
  rfl

/-- A STORE word is told apart by `storeId`. -/
theorem instrId_store : Decoder.instrId (instrWord f7 rs2 rs1 f3 rd 0b0100011#7) =
    Decoder.storeId f3 := by
  rw [Decoder.instrId, opcode_instrWord, func3_instrWord]
  rfl

/-- A BRANCH word is told apart by `branchId`. -/
theorem instrId_branch : Decoder.instrId (instrWord f7 rs2 rs1 f3 rd 0b1100011#7) =
    Decoder.branchId f3 := by
  rw [Decoder.instrId, opcode_instrWord, func3_instrWord]
  rfl

/-- An AMO word is told apart by `amoId`. -/
theorem instrId_amo : Decoder.instrId (instrWord f7 rs2 rs1 f3 rd 0b0101111#7) =
    Decoder.amoId f3 (f7.extractLsb' 2 5) rs2 := by
  rw [Decoder.instrId, opcode_instrWord, func3_instrWord, funct5_instrWord, instrWord_rs2]
  rfl

/-- A MISC-MEM word with `funct3` 0 is PAUSE or FENCE. -/
theorem instrId_fence : Decoder.instrId (instrWord f7 rs2 rs1 0#3 rd 0b0001111#7) =
    if instrWord f7 rs2 rs1 0#3 rd 0b0001111#7 = 0x0100000f#32 then .pause else .fence := by
  rw [Decoder.instrId, opcode_instrWord, Decoder.miscMemId, func3_instrWord]
  rfl

end Decode

/-- The shift check of the decoder reads the bits above the shift amount. -/
theorem shift_check (f7 : BitVec 7) (shamt : BitVec 5) :
    ((f7 ++ shamt).signExtend 32).extractLsb' 5 7 = f7 := by
  refine BitVec.eq_of_getLsbD_eq fun k hk => ?_
  rw [BitVec.getLsbD_extractLsb', BitVec.getLsbD_signExtend, BitVec.getLsbD_append]
  simp [hk, show 5 + k < 12 by omega, show 5 + k < 32 by omega]

/-- **The decoder decodes the instruction set.** -/
theorem decoder_encode (i : Instr) : decoder i.encode = i.decoded := by
  cases i with
  | op o rd rs1 rs2 =>
    rw [Instr.encode, decoder_instrWord, instrId_op, imm_of_none _ _ _ _ _ _ rfl]
    -- The identity and the immediate read back; what is left is fields of the word.
    cases o <;> rfl
  | opImm o rd rs1 imm =>
    rw [Instr.encode, decoder_instrWord, instrId_opImm, imm_of_isI _ _ _ _ _ rfl]
    cases o <;> rfl
  | shift o rd rs1 shamt =>
    rw [Instr.encode, decoder_instrWord, instrId_opImm, imm_of_shift, shift_check]
    cases o <;> rfl
  | load o rd rs1 imm =>
    rw [Instr.encode, decoder_instrWord, instrId_load, imm_of_isI _ _ _ _ _ rfl]
    cases o <;> rfl
  | store o rs1 rs2 imm =>
    rw [Instr.encode, decoder_instrWord, instrId_store, imm_of_store]
    cases o <;> rfl
  | branch o rs1 rs2 off =>
    rw [Instr.encode, decoder_instrWord, instrId_branch, imm_of_branch]
    cases o <;> rfl
  | jal rd off =>
    rw [Instr.encode, decoder_instrWord, imm_of_jal, Decoder.instrId, opcode_instrWord]
    rfl
  | jalr rd rs1 imm =>
    rw [Instr.encode, decoder_instrWord, imm_of_isI _ _ _ _ _ rfl, Decoder.instrId,
      opcode_instrWord]
    rfl
  | lui rd imm =>
    rw [Instr.encode, decoder_instrWord, imm_of_upper _ _ _ rfl, Decoder.instrId,
      opcode_instrWord]
    rfl
  | auipc rd imm =>
    rw [Instr.encode, decoder_instrWord, imm_of_upper _ _ _ rfl, Decoder.instrId,
      opcode_instrWord]
    rfl
  | lr aqrl rd rs1 =>
    rw [Instr.encode, decoder_instrWord, instrId_amo, imm_of_none _ _ _ _ _ _ rfl,
      BitVec.extractLsb'_append_eq_left]
    rfl
  | sc aqrl rd rs1 rs2 =>
    rw [Instr.encode, decoder_instrWord, instrId_amo, imm_of_none _ _ _ _ _ _ rfl,
      BitVec.extractLsb'_append_eq_left]
    rfl
  | amo o aqrl rd rs1 rs2 =>
    rw [Instr.encode, decoder_instrWord, instrId_amo, imm_of_none _ _ _ _ _ _ rfl,
      BitVec.extractLsb'_append_eq_left]
    cases o <;> rfl
  | fence bits rd rs1 =>
    rw [Instr.encode, decoder_instrWord, instrId_fence, imm_of_none _ _ _ _ _ _ rfl]
    rfl

end Synapse32
