import Synapse32.Rtl.InstrDefines

/-! # Instructions

RV32IM with LR, SC, the AMOs and FENCE as a syntax, and their encoding. PAUSE is one of the fences.
Every format is the R layout with its fields put together differently. -/

namespace Synapse32

/-! ## Syntax -/

/-- Register-register operations, M extension included. -/
inductive ROp
  | add | sub | sll | slt | sltu | xor | srl | sra | or | and
  | mul | mulh | mulhsu | mulhu | div | divu | rem | remu
  deriving DecidableEq, Repr

/-- Register-immediate operations with a 12-bit immediate. -/
inductive IOp
  | addi | slti | sltiu | xori | ori | andi
  deriving DecidableEq, Repr

/-- Shifts by an immediate. -/
inductive ShiftOp
  | slli | srli | srai
  deriving DecidableEq, Repr

/-- Loads. -/
inductive LoadOp
  | lb | lh | lw | lbu | lhu
  deriving DecidableEq, Repr

/-- Stores. -/
inductive StoreOp
  | sb | sh | sw
  deriving DecidableEq, Repr

/-- Conditional branches. -/
inductive BranchOp
  | beq | bne | blt | bge | bltu | bgeu
  deriving DecidableEq, Repr

/-- Read-modify-write operations. -/
inductive AmoOp
  | swap | add | and | or | xor | max | min | maxu | minu
  deriving DecidableEq, Repr

/-- Instructions. Branch and jump offsets are in halfwords; `aqrl` are the ordering bits. -/
inductive Instr
  | op (o : ROp) (rd rs1 rs2 : BitVec 5)
  | opImm (o : IOp) (rd rs1 : BitVec 5) (imm : BitVec 12)
  | shift (o : ShiftOp) (rd rs1 shamt : BitVec 5)
  | load (o : LoadOp) (rd rs1 : BitVec 5) (imm : BitVec 12)
  | store (o : StoreOp) (rs1 rs2 : BitVec 5) (imm : BitVec 12)
  | branch (o : BranchOp) (rs1 rs2 : BitVec 5) (off : BitVec 12)
  | jal (rd : BitVec 5) (off : BitVec 20)
  | jalr (rd rs1 : BitVec 5) (imm : BitVec 12)
  | lui (rd : BitVec 5) (imm : BitVec 20)
  | auipc (rd : BitVec 5) (imm : BitVec 20)
  | lr (aqrl : BitVec 2) (rd rs1 : BitVec 5)
  | sc (aqrl : BitVec 2) (rd rs1 rs2 : BitVec 5)
  | amo (o : AmoOp) (aqrl : BitVec 2) (rd rs1 rs2 : BitVec 5)
  | fence (bits : BitVec 12) (rd rs1 : BitVec 5)
  deriving DecidableEq, Repr

/-! ## Encoding -/

/-- The fields of the R layout, high to low. -/
def instrWord (f7 : BitVec 7) (rs2 rs1 : BitVec 5) (f3 : BitVec 3) (rd : BitVec 5)
    (op : BitVec 7) : Word :=
  f7 ++ (rs2 ++ (rs1 ++ (f3 ++ (rd ++ op))))

/-- `funct7`. -/
def ROp.funct7 : ROp → BitVec 7
  | sub | sra => 0x20#7
  | mul | mulh | mulhsu | mulhu | div | divu | rem | remu => 0x01#7
  | _ => 0x00#7

/-- `funct3`. -/
def ROp.funct3 : ROp → BitVec 3
  | add | sub | mul => 0#3
  | sll | mulh => 1#3
  | slt | mulhsu => 2#3
  | sltu | mulhu => 3#3
  | xor | div => 4#3
  | srl | sra | divu => 5#3
  | or | rem => 6#3
  | and | remu => 7#3

/-- `funct3`. -/
def IOp.funct3 : IOp → BitVec 3
  | addi => 0#3
  | slti => 2#3
  | sltiu => 3#3
  | xori => 4#3
  | ori => 6#3
  | andi => 7#3

/-- `funct3`. -/
def ShiftOp.funct3 : ShiftOp → BitVec 3
  | slli => 1#3
  | srli | srai => 5#3

/-- The bits above the shift amount. -/
def ShiftOp.funct7 : ShiftOp → BitVec 7
  | slli | srli => 0x00#7
  | srai => 0x20#7

/-- `funct3`, which is also the load type of the data port. -/
def LoadOp.funct3 : LoadOp → BitVec 3
  | lb => 0b000#3
  | lh => 0b001#3
  | lw => 0b010#3
  | lbu => 0b100#3
  | lhu => 0b101#3

/-- `funct3`. -/
def StoreOp.funct3 : StoreOp → BitVec 3
  | sb => 0#3
  | sh => 1#3
  | sw => 2#3

/-- `funct3`. -/
def BranchOp.funct3 : BranchOp → BitVec 3
  | beq => 0#3
  | bne => 1#3
  | blt => 4#3
  | bge => 5#3
  | bltu => 6#3
  | bgeu => 7#3

/-- `funct5`. -/
def AmoOp.funct5 : AmoOp → BitVec 5
  | swap => 0b00001#5
  | add => 0b00000#5
  | and => 0b01100#5
  | or => 0b01000#5
  | xor => 0b00100#5
  | max => 0b10100#5
  | min => 0b10000#5
  | maxu => 0b11100#5
  | minu => 0b11000#5

/-- **The encoding.** -/
def Instr.encode : Instr → Word
  | .op o rd rs1 rs2 => instrWord o.funct7 rs2 rs1 o.funct3 rd 0b0110011#7
  | .opImm o rd rs1 imm =>
    instrWord (imm.extractLsb' 5 7) (imm.extractLsb' 0 5) rs1 o.funct3 rd 0b0010011#7
  | .shift o rd rs1 shamt => instrWord o.funct7 shamt rs1 o.funct3 rd 0b0010011#7
  | .load o rd rs1 imm =>
    instrWord (imm.extractLsb' 5 7) (imm.extractLsb' 0 5) rs1 o.funct3 rd 0b0000011#7
  | .store o rs1 rs2 imm =>
    instrWord (imm.extractLsb' 5 7) rs2 rs1 o.funct3 (imm.extractLsb' 0 5) 0b0100011#7
  | .branch o rs1 rs2 off =>
    instrWord (off.extractLsb' 11 1 ++ off.extractLsb' 4 6) rs2 rs1 o.funct3
      (off.extractLsb' 0 4 ++ off.extractLsb' 10 1) 0b1100011#7
  | .jal rd off =>
    instrWord (off.extractLsb' 19 1 ++ off.extractLsb' 4 6)
      (off.extractLsb' 0 4 ++ off.extractLsb' 10 1) (off.extractLsb' 14 5)
      (off.extractLsb' 11 3) rd 0b1101111#7
  | .jalr rd rs1 imm =>
    instrWord (imm.extractLsb' 5 7) (imm.extractLsb' 0 5) rs1 0#3 rd 0b1100111#7
  | .lui rd imm =>
    instrWord (imm.extractLsb' 13 7) (imm.extractLsb' 8 5) (imm.extractLsb' 3 5)
      (imm.extractLsb' 0 3) rd 0b0110111#7
  | .auipc rd imm =>
    instrWord (imm.extractLsb' 13 7) (imm.extractLsb' 8 5) (imm.extractLsb' 3 5)
      (imm.extractLsb' 0 3) rd 0b0010111#7
  | .lr aqrl rd rs1 => instrWord (0b00010#5 ++ aqrl) 0#5 rs1 0b010#3 rd 0b0101111#7
  | .sc aqrl rd rs1 rs2 => instrWord (0b00011#5 ++ aqrl) rs2 rs1 0b010#3 rd 0b0101111#7
  | .amo o aqrl rd rs1 rs2 => instrWord (o.funct5 ++ aqrl) rs2 rs1 0b010#3 rd 0b0101111#7
  | .fence bits rd rs1 =>
    instrWord (bits.extractLsb' 5 7) (bits.extractLsb' 0 5) rs1 0#3 rd 0b0001111#7

end Synapse32
