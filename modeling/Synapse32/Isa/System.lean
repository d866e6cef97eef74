import Synapse32.Isa.Instr

/-! # System instructions

The CSR instructions, the privileged instructions and FENCE.I with their encodings; with the
instructions of `Isa.Instr` they are all that the core implements. -/

namespace Synapse32

/-- CSR operations; the last three take the `rs1` field as an immediate. -/
inductive ZicsrOp
  | csrrw | csrrs | csrrc | csrrwi | csrrsi | csrrci
  deriving DecidableEq, Repr

/-- `funct3`. -/
def ZicsrOp.funct3 : ZicsrOp → BitVec 3
  | csrrw => 1#3
  | csrrs => 2#3
  | csrrc => 3#3
  | csrrwi => 5#3
  | csrrsi => 6#3
  | csrrci => 7#3

/-- Whether the `rs1` field names a register. -/
def ZicsrOp.readsRs1 : ZicsrOp → Bool
  | csrrw | csrrs | csrrc => true
  | csrrwi | csrrsi | csrrci => false

/-- Privileged instructions without operands. -/
inductive PrivOp
  | mret | sret | wfi | ecall | ebreak
  deriving DecidableEq, Repr

/-- The bits above `rs1`: `funct7` and, below it, the field of `rs2`. -/
def PrivOp.funct12 : PrivOp → BitVec 12
  | mret => 0x302#12
  | sret => 0x102#12
  | wfi => 0x105#12
  | ecall => 0x000#12
  | ebreak => 0x001#12

/-- Instructions beside those of `Instr`. -/
inductive SysInstr
  | csr (o : ZicsrOp) (rd rs1 : BitVec 5) (addr : BitVec 12)
  | priv (o : PrivOp)
  | sfenceVma (rs1 rs2 : BitVec 5)
  | fenceI (bits : BitVec 12) (rd rs1 : BitVec 5)
  deriving DecidableEq, Repr

/-- The encoding. -/
def SysInstr.encode : SysInstr → Word
  | .csr o rd rs1 addr =>
    instrWord (addr.extractLsb' 5 7) (addr.extractLsb' 0 5) rs1 o.funct3 rd 0b1110011#7
  | .priv o =>
    instrWord (o.funct12.extractLsb' 5 7) (o.funct12.extractLsb' 0 5) 0#5 0#3 0#5 0b1110011#7
  | .sfenceVma rs1 rs2 => instrWord 0b0001001#7 rs2 rs1 0#3 0#5 0b1110011#7
  | .fenceI bits rd rs1 =>
    instrWord (bits.extractLsb' 5 7) (bits.extractLsb' 0 5) rs1 1#3 rd 0b0001111#7

/-- Every instruction of the core: RV32IMA, Zicsr, Zifencei, Zihintpause and the privileged ones. -/
inductive AnyInstr
  | user (i : Instr)
  | system (i : SysInstr)
  deriving DecidableEq, Repr

/-- The encoding. -/
def AnyInstr.encode : AnyInstr → Word
  | .user i => i.encode
  | .system i => i.encode

end Synapse32
