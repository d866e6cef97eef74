import Synapse32.Rtl.InstrDefines

/-! # Decoder

`rtl/core_modules/decoder.v`: operand fields with their validity, the immediate, and the
instruction id. -/

namespace Synapse32

/-- The outputs of `decoder.v`. -/
structure Decoded where
  rs2 : BitVec 5
  rs1 : BitVec 5
  imm : Word
  rd : BitVec 5
  rs1Valid : Bool
  rs2Valid : Bool
  rdValid : Bool
  opcode : BitVec 7
  instrId : InstrId
  deriving DecidableEq, Repr

namespace Decoder

/-- `opcode`. -/
def opcode (instr : Word) : BitVec 7 := instr.extractLsb' 0 7

/-- `func3`. -/
def func3 (instr : Word) : BitVec 3 := instr.extractLsb' 12 3

/-- `funct5`. -/
def funct5 (instr : Word) : BitVec 5 := instr.extractLsb' 27 5

/-- `is_i_instr`. -/
def isI (op : BitVec 7) : Bool := op == 0b0000011#7 || op == 0b0010011#7 || op == 0b1100111#7

/-- `is_u_instr`. -/
def isU (op : BitVec 7) : Bool := op == 0b0010111#7 || op == 0b0110111#7

/-- `is_b_instr`. -/
def isB (op : BitVec 7) : Bool := op == 0b1100011#7

/-- `is_j_instr`. -/
def isJ (op : BitVec 7) : Bool := op == 0b1101111#7

/-- `is_s_instr`. -/
def isS (op : BitVec 7) : Bool := op == 0b0100011#7

/-- `is_r_instr`. -/
def isR (op : BitVec 7) : Bool := op == 0b0110011#7 || op == 0b0100111#7 || op == 0b1010011#7

/-- `is_csr_instr`. -/
def isCsr (op : BitVec 7) : Bool := op == 0b1110011#7

/-- `is_amo_instr`. -/
def isAmo (op : BitVec 7) : Bool := op == 0b0101111#7

/-- `func7`, forced to zero outside the R format. -/
def func7 (instr : Word) : BitVec 7 :=
  if isR (opcode instr) then instr.extractLsb' 25 7 else 0#7

/-- `imm`: the six immediate layouts. -/
def imm (instr : Word) : Word :=
  let op := opcode instr
  if isI op then (instr.extractLsb' 20 12).signExtend 32
  else if isS op then (instr.extractLsb' 25 7 ++ instr.extractLsb' 7 5).signExtend 32
  else if isB op then
    (instr.extractLsb' 31 1 ++ instr.extractLsb' 7 1 ++ instr.extractLsb' 25 6 ++
      instr.extractLsb' 8 4 ++ 0#1).signExtend 32
  else if isU op then instr.extractLsb' 12 20 ++ 0#12
  else if isJ op then
    (instr.extractLsb' 31 1 ++ instr.extractLsb' 12 8 ++ instr.extractLsb' 20 1 ++
      instr.extractLsb' 25 6 ++ instr.extractLsb' 21 4 ++ 0#1).signExtend 32
  else if isCsr op then (instr.extractLsb' 20 12).setWidth 32
  else 0#32

/-- The R-format table, selected by `{func7, func3}`. -/
def rTypeId (f7 : BitVec 7) (f3 : BitVec 3) : InstrId :=
  if f7 = 0x00#7 ∧ f3 = 0x0#3 then .add
  else if f7 = 0x20#7 ∧ f3 = 0x0#3 then .sub
  else if f7 = 0x01#7 ∧ f3 = 0x0#3 then .mul
  else if f7 = 0x01#7 ∧ f3 = 0x1#3 then .mulh
  else if f7 = 0x01#7 ∧ f3 = 0x2#3 then .mulhsu
  else if f7 = 0x01#7 ∧ f3 = 0x3#3 then .mulhu
  else if f7 = 0x00#7 ∧ f3 = 0x4#3 then .xor
  else if f7 = 0x00#7 ∧ f3 = 0x6#3 then .or
  else if f7 = 0x00#7 ∧ f3 = 0x7#3 then .and
  else if f7 = 0x00#7 ∧ f3 = 0x1#3 then .sll
  else if f7 = 0x00#7 ∧ f3 = 0x5#3 then .srl
  else if f7 = 0x20#7 ∧ f3 = 0x5#3 then .sra
  else if f7 = 0x00#7 ∧ f3 = 0x2#3 then .slt
  else if f7 = 0x00#7 ∧ f3 = 0x3#3 then .sltu
  else if f7 = 0x01#7 ∧ f3 = 0x4#3 then .div
  else if f7 = 0x01#7 ∧ f3 = 0x5#3 then .divu
  else if f7 = 0x01#7 ∧ f3 = 0x6#3 then .rem
  else if f7 = 0x01#7 ∧ f3 = 0x7#3 then .remu
  else .invalid

/-- The I-format arithmetic table; the shifts check `imm[11:5]`. -/
def iTypeId (f3 : BitVec 3) (immHi : BitVec 7) : InstrId :=
  if f3 = 0x0#3 then .addi
  else if f3 = 0x4#3 then .xori
  else if f3 = 0x6#3 then .ori
  else if f3 = 0x7#3 then .andi
  else if f3 = 0x1#3 then (if immHi = 0x00#7 then .slli else .invalid)
  else if f3 = 0x5#3 then
    (if immHi = 0x00#7 then .srli else if immHi = 0x20#7 then .srai else .invalid)
  else if f3 = 0x2#3 then .slti
  else if f3 = 0x3#3 then .sltiu
  else .invalid

/-- The load table. -/
def loadId (f3 : BitVec 3) : InstrId :=
  if f3 = 0x0#3 then .lb
  else if f3 = 0x1#3 then .lh
  else if f3 = 0x2#3 then .lw
  else if f3 = 0x4#3 then .lbu
  else if f3 = 0x5#3 then .lhu
  else .invalid

/-- The store table. -/
def storeId (f3 : BitVec 3) : InstrId :=
  if f3 = 0x0#3 then .sb
  else if f3 = 0x1#3 then .sh
  else if f3 = 0x2#3 then .sw
  else .invalid

/-- The branch table. -/
def branchId (f3 : BitVec 3) : InstrId :=
  if f3 = 0x0#3 then .beq
  else if f3 = 0x1#3 then .bne
  else if f3 = 0x4#3 then .blt
  else if f3 = 0x5#3 then .bge
  else if f3 = 0x6#3 then .bltu
  else if f3 = 0x7#3 then .bgeu
  else .invalid

/-- The A-extension table; `LR.W` also checks that its rs2 field is zero. -/
def amoId (f3 : BitVec 3) (f5 : BitVec 5) (rs2 : BitVec 5) : InstrId :=
  if f3 ≠ 0b010#3 then .invalid
  else if f5 = 0b00010#5 then (if rs2 = 0#5 then .lrW else .invalid)
  else if f5 = 0b00011#5 then .scW
  else if f5 = 0b00001#5 then .amoswapW
  else if f5 = 0b00000#5 then .amoaddW
  else if f5 = 0b01100#5 then .amoandW
  else if f5 = 0b01000#5 then .amoorW
  else if f5 = 0b00100#5 then .amoxorW
  else if f5 = 0b10100#5 then .amomaxW
  else if f5 = 0b10000#5 then .amominW
  else if f5 = 0b11100#5 then .amomaxuW
  else if f5 = 0b11000#5 then .amominuW
  else .invalid

/-- The fences. -/
def miscMemId (instr : Word) : InstrId :=
  if func3 instr = 0x0#3 then (if instr = 0x0100000f#32 then .pause else .fence)
  else if func3 instr = 0x1#3 then .fenceI
  else .invalid

/-- The system instructions: whole-word comparisons first, then the CSR table. -/
def systemId (instr : Word) : InstrId :=
  if instr = 0x30200073#32 then .mret
  else if instr = 0x10200073#32 then .sret
  else if instr = 0x10500073#32 then .wfi
  else if instr = 0x00000073#32 then .ecall
  else if instr = 0x00100073#32 then .ebreak
  else if instr.extractLsb' 25 7 = 0b0001001#7 ∧ func3 instr = 0b000#3 ∧
      instr.extractLsb' 7 5 = 0b00000#5 then .sfenceVma
  else if func3 instr = 0x1#3 then .csrrw
  else if func3 instr = 0x2#3 then .csrrs
  else if func3 instr = 0x3#3 then .csrrc
  else if func3 instr = 0x5#3 then .csrrwi
  else if func3 instr = 0x6#3 then .csrrsi
  else if func3 instr = 0x7#3 then .csrrci
  else .invalid

/-- `instr_id`. -/
def instrId (instr : Word) : InstrId :=
  let op := opcode instr
  if op = 0b0110011#7 then rTypeId (func7 instr) (func3 instr)
  else if op = 0b0010011#7 then iTypeId (func3 instr) ((imm instr).extractLsb' 5 7)
  else if op = 0b0000011#7 then loadId (func3 instr)
  else if op = 0b0100011#7 then storeId (func3 instr)
  else if op = 0b1100011#7 then branchId (func3 instr)
  else if op = 0b1101111#7 then .jal
  else if op = 0b1100111#7 then .jalr
  else if op = 0b0110111#7 then .lui
  else if op = 0b0010111#7 then .auipc
  else if op = 0b0101111#7 then amoId (func3 instr) (funct5 instr) (instr.extractLsb' 20 5)
  else if op = 0b0001111#7 then miscMemId instr
  else if op = 0b1110011#7 then systemId instr
  else .invalid

end Decoder

open Decoder in
/-- The decoder. -/
def decoder (instr : Word) : Decoded :=
  let op := opcode instr
  { rs2 := if isR op || isS op || isB op || isAmo op then instr.extractLsb' 20 5 else 0#5
    rs1 := if isR op || isS op || isB op || isI op || isCsr op || isAmo op
      then instr.extractLsb' 15 5 else 0#5
    imm := imm instr
    rd := if isR op || isU op || isJ op || isI op || isCsr op || isAmo op
      then instr.extractLsb' 7 5 else 0#5
    rs1Valid := isR op || isI op || isS op || isB op ||
      (isCsr op && !(func3 instr).getLsbD 2) || isAmo op
    rs2Valid := isR op || isS op || isB op || (isAmo op && funct5 instr != 0b00010#5)
    rdValid := isR op || isU op || isJ op || isI op || isCsr op || isAmo op
    opcode := op
    instrId := instrId instr }

/-- The bubble word `addi x0, x0, 0` decodes to an ADDI that names only `x0`. -/
example : decoder 0x00000013#32 =
    ⟨0#5, 0#5, 0#32, 0#5, true, false, true, 0b0010011#7, .addi⟩ := by decide

end Synapse32
