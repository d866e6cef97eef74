import Mathlib.Tactic

/-! # Instruction ids and the memory map

`rtl/include/instr_defines.vh` and `rtl/include/memory_map.vh`. The ids are seven-bit constants in
the source that are only ever compared for equality, so they are an enumeration here; the pipeline
registers' reset and flush value `7'b0` is `INSTR_INVALID`. -/

namespace Synapse32

/-- A 32-bit bus, register or memory word. -/
abbrev Word := BitVec 32

/-- The instruction ids of `instr_defines.vh`. -/
inductive InstrId
  | invalid
  | add | sub | xor | or | and | sll | srl | sra | slt | sltu
  | mul | mulh | mulhsu | mulhu | div | divu | rem | remu
  | addi | xori | ori | andi | slli | srli | srai | slti | sltiu
  | lb | lh | lw | lbu | lhu
  | sb | sh | sw
  | beq | bne | blt | bge | bltu | bgeu
  | jal | jalr
  | lui | auipc
  | fence | fenceI | pause
  | csrrw | csrrs | csrrc | csrrwi | csrrsi | csrrci
  | mret | ecall | ebreak | wfi | sret | sfenceVma
  | lrW | scW | amoswapW | amoaddW | amoandW | amoorW | amoxorW
  | amomaxW | amominW | amomaxuW | amominuW
  deriving DecidableEq, Repr

namespace InstrId

/-- The nine read-modify-write ids, `is_amo_w` of `atomic_lsu.v`. -/
def isAmo : InstrId → Bool
  | amoswapW | amoaddW | amoandW | amoorW | amoxorW
  | amomaxW | amominW | amomaxuW | amominuW => true
  | _ => false

/-- The plain loads, `read_enable` of `memory_unit.v`. -/
def isPlainLoad : InstrId → Bool
  | lb | lh | lw | lbu | lhu => true
  | _ => false

/-- The plain stores, `wr_enable` of `memory_unit.v`. -/
def isPlainStore : InstrId → Bool
  | sb | sh | sw => true
  | _ => false

/-- The ids whose result comes from memory: the list that `forwarding_unit.v`,
`load_use_detector.v` and `writeback.v` each repeat. -/
def isLoad (id : InstrId) : Bool := id.isPlainLoad || id == lrW || id.isAmo

end InstrId

/-! ## Memory map -/

/-- `IS_INSTR_MEM`: the 64 MB program RAM. -/
def isInstrMem (addr : Word) : Bool := 0x80000000#32 ≤ addr && addr ≤ 0x83FFFFFF#32

/-- `IS_TIMER_MEM`: the CLINT window. -/
def isTimerMem (addr : Word) : Bool := 0x02000000#32 ≤ addr && addr ≤ 0x0200FFFF#32

/-- `IS_DATA_MEM`: the 1 MB data RAM. -/
def isDataMem (addr : Word) : Bool := 0x10000000#32 ≤ addr && addr ≤ 0x100FFFFF#32

/-- `IS_UART_MEM`. -/
def isUartMem (addr : Word) : Bool := 0x20000000#32 ≤ addr && addr ≤ 0x20000FFF#32

/-- `IS_PLIC_MEM`. -/
def isPlicMem (addr : Word) : Bool := 0x0C000000#32 ≤ addr && addr ≤ 0x0C3FFFFF#32

/-- The two RAM regions, the `cacheable` test of both caches. -/
def isRam (addr : Word) : Bool := isInstrMem addr || isDataMem addr

/-- The three device windows behind the data port. -/
def isDevice (addr : Word) : Bool := isTimerMem addr || isUartMem addr || isPlicMem addr

/-- No address is both RAM and a device. -/
theorem isDevice_eq_false_of_isRam {addr : Word} (h : isRam addr = true) :
    isDevice addr = false := by
  simp only [isRam, isInstrMem, isDataMem, isDevice, isTimerMem, isUartMem, isPlicMem,
    Bool.or_eq_true, Bool.and_eq_true, decide_eq_true_eq, Bool.or_eq_false_iff,
    Bool.and_eq_false_iff, decide_eq_false_iff_not, BitVec.le_def] at h ⊢
  simp only [BitVec.toNat_ofNat] at h ⊢
  omega

/-! ## Privilege modes -/

/-- `PRIV_U`. -/
def privU : BitVec 2 := 0b00#2

/-- `PRIV_S`. -/
def privS : BitVec 2 := 0b01#2

/-- `PRIV_M`. -/
def privM : BitVec 2 := 0b11#2

end Synapse32
