import Synapse32.Rtl.CsrFile

/-! # Pipeline stages

`rtl/pipeline_stages/`, `rtl/memory_unit.v`, `rtl/writeback.v`, `rtl/core_modules/registerfile.v`,
`rtl/core_modules/atomic_lsu.v` and `rtl/core_modules/pc.v`. The pipeline registers keep the fields
that a later stage reads; the fields that are only passed along have no reader. -/

namespace Synapse32

/-! ## Register file -/

/-- The 32 registers of `registerfile.v`. -/
abbrev Registerfile := BitVec 5 → Word

namespace Registerfile

/-- One read port, with write-through from the register being written. -/
def read (regs : Registerfile) (rs : BitVec 5) (rsValid : Bool) (rd : BitVec 5) (wrEn : Bool)
    (rdValue : Word) : Word :=
  if rsValid then
    if rs = rd ∧ wrEn = true ∧ rd ≠ 0#5 then rdValue else regs rs
  else 0#32

/-- The write port: `x0` is cleared, then the written register is updated. -/
def next (regs : Registerfile) (rd : BitVec 5) (wrEn : Bool) (rdValue : Word) : Registerfile :=
  fun r =>
    if wrEn = true ∧ rd ≠ 0#5 ∧ r = rd then rdValue
    else if r = 0#5 then 0#32
    else regs r

end Registerfile

/-! ## IF/ID -/

/-- The NOP word `addi x0, x0, 0` that a flush inserts. -/
def nopInstr : Word := 0x00000013#32

/-- The registers of `IF_ID.v`. -/
structure IfId where
  pc : Word
  instruction : Word
  instructionValid : Bool
  instrPageFault : Bool

/-- The next contents of IF/ID. -/
def IfId.next (s : IfId) (pcIn instructionIn : Word) (instrPageFaultIn flush stall : Bool) :
    IfId :=
  if flush then ⟨pcIn, nopInstr, false, false⟩
  else if stall then s
  else ⟨pcIn, instructionIn, true, instrPageFaultIn⟩

/-! ## ID/EX -/

/-- The registers of `ID_EX.v`; `dec` groups those that hold the decoder's outputs. -/
structure IdEx where
  dec : Decoded
  pc : Word
  instr : Word
  rs1Value : Word
  rs2Value : Word
  instrValid : Bool
  instrPageFault : Bool

/-- The decoder fields of a bubble: `ADDI` with no operand and no destination. -/
def bubbleDecoded : Decoded where
  rs2 := 0#5
  rs1 := 0#5
  imm := 0#32
  rd := 0#5
  rs1Valid := false
  rs2Valid := false
  rdValid := false
  opcode := 0b0010011#7
  instrId := .addi

/-- The bubble that a flush or a decode-side stall inserts into EX. -/
def IdEx.bubble (pcIn : Word) : IdEx where
  dec := bubbleDecoded
  pc := pcIn
  instr := nopInstr
  rs1Value := 0#32
  rs2Value := 0#32
  instrValid := false
  instrPageFault := false

/-- The next contents of ID/EX. While EX is held it keeps the operands it has resolved. -/
def IdEx.next (s : IdEx) (incoming : IdEx) (rs1Resolved rs2Resolved : Word)
    (flush hold stall : Bool) : IdEx :=
  if flush then IdEx.bubble incoming.pc
  else if hold then { s with rs1Value := rs1Resolved, rs2Value := rs2Resolved }
  else if stall then IdEx.bubble incoming.pc
  else incoming

/-! ## EX/MEM and MEM/WB -/

/-- The registers of `EX_MEM.v` that MEM reads. -/
structure ExMem where
  rdAddr : BitVec 5
  rs2Value : Word
  pc : Word
  memAddr : Word
  execOutput : Word
  instrId : InstrId
  rdValid : Bool

/-- The bubble that a flush inserts into MEM. -/
def ExMem.bubble (pcIn : Word) : ExMem where
  rdAddr := 0#5
  rs2Value := 0#32
  pc := pcIn
  memAddr := 0#32
  execOutput := 0#32
  instrId := .invalid
  rdValid := false

/-- The next contents of EX/MEM. -/
def ExMem.next (s incoming : ExMem) (flush hold : Bool) : ExMem :=
  if flush then ExMem.bubble incoming.pc
  else if hold then s
  else incoming

/-- The registers of `MEM_WB.v` that WB reads, and the address of the instruction there. -/
structure MemWb where
  rdAddr : BitVec 5
  pc : Word
  execOutput : Word
  instrId : InstrId
  rdValid : Bool
  memData : Word
  deriving DecidableEq

/-- The bubble that a flush inserts into WB. -/
def MemWb.bubble (pcIn : Word) : MemWb where
  rdAddr := 0#5
  pc := pcIn
  execOutput := 0#32
  instrId := .invalid
  rdValid := false
  memData := 0#32

/-- The next contents of MEM/WB. -/
def MemWb.next (incoming : MemWb) (flush : Bool) : MemWb :=
  if flush then MemWb.bubble incoming.pc else incoming

/-- `rd_value_out` of `writeback.v`. -/
def MemWb.rdValue (s : MemWb) : Word := if s.instrId.isLoad then s.memData else s.execOutput

/-- `wr_en_out` of `writeback.v`. -/
def MemWb.wrEn (s : MemWb) : Bool := s.rdValid

/-! ## Hazards -/

/-- One operand's selector in `forwarding_unit.v`. -/
def forwardingUnit (rsAddr : BitVec 5) (rsValid : Bool) (mem : ExMem) (wb : MemWb) : Forward :=
  if rsValid then
    -- The younger result goes first; that of a load is not there yet.
    if mem.rdValid = true ∧ mem.rdAddr ≠ 0#5 ∧ mem.rdAddr = rsAddr ∧ mem.instrId.isLoad = false then
      .fromMem
    else if wb.rdValid = true ∧ wb.wrEn = true ∧ wb.rdAddr ≠ 0#5 ∧ wb.rdAddr = rsAddr then .fromWb
    else .noForwarding
  else .noForwarding

/-- `load_use_detector.v`: the instruction in ID reads the destination of a load in EX. -/
def loadUseDetector (id : Decoded) (ex : Decoded) : Bool :=
  (ex.instrId.isLoad && ex.rdValid && ex.rd != 0#5) &&
    ((id.rs1Valid && id.rs1 == ex.rd) || (id.rs2Valid && id.rs2 == ex.rd))

/-! ## Memory unit -/

namespace MemoryUnit

/-- `write_byte_enable`: the lanes count from the address, so a byte store is always lane 0. -/
def writeByteEnable (id : InstrId) (memAddr : Word) : BitVec 4 :=
  match id with
  | .sb => 0b0001#4
  | .sh => if memAddr.getLsbD 0 then 0b0000#4 else 0b0011#4
  | .sw => if memAddr.extractLsb' 0 2 = 0#2 then 0b1111#4 else 0b0000#4
  | _ => 0b0000#4

/-- `load_type`. -/
def loadType (id : InstrId) : BitVec 3 :=
  match id with
  | .lb => 0b000#3
  | .lh => 0b001#3
  | .lw => 0b010#3
  | .lbu => 0b100#3
  | .lhu => 0b101#3
  | _ => 0b111#3

/-- `wr_data`. -/
def wrData (id : InstrId) (rs2Value : Word) : Word :=
  match id with
  | .sb => (rs2Value.extractLsb' 0 8).setWidth 32
  | .sh => (rs2Value.extractLsb' 0 16).setWidth 32
  | .sw => rs2Value
  | _ => 0#32

end MemoryUnit

/-- `mem_read_data_effective` for an access with a read request: the extension by load type. -/
def extendLoad (loadType : BitVec 3) (d : Word) : Word :=
  if loadType = 0b000#3 then (d.extractLsb' 0 8).signExtend 32
  else if loadType = 0b100#3 then (d.extractLsb' 0 8).setWidth 32
  else if loadType = 0b001#3 then (d.extractLsb' 0 16).signExtend 32
  else if loadType = 0b101#3 then (d.extractLsb' 0 16).setWidth 32
  else d

/-! ## Atomics -/

/-- The reservation registers of `atomic_lsu.v`. -/
structure AtomicLsu where
  lrValid : Bool
  lrAddr : Word

namespace AtomicLsu

/-- `atomic_word_aligned`. -/
def wordAligned (memAddr : Word) : Bool := memAddr.extractLsb' 0 2 == 0#2

/-- `sc_success`. -/
def scSuccess (s : AtomicLsu) (id : InstrId) (memAddr : Word) : Bool :=
  id == .scW && wordAligned memAddr && s.lrValid && s.lrAddr == memAddr

/-- `atomic_new_word`. -/
def newWord (id : InstrId) (old rs2 : Word) : Word :=
  match id with
  | .amoswapW => rs2
  | .amoaddW => old + rs2
  | .amoandW => old &&& rs2
  | .amoorW => old ||| rs2
  | .amoxorW => old ^^^ rs2
  | .amomaxW => if rs2.sle old then old else rs2
  | .amominW => if old.sle rs2 then old else rs2
  | .amomaxuW => if rs2.ule old then old else rs2
  | .amominuW => if old.ule rs2 then old else rs2
  | _ => 0#32

/-- The reservation after a cycle. -/
def next (s : AtomicLsu) (id : InstrId) (memAddr : Word) (memHold stdStore : Bool)
    (stdStoreAddr : Word) : AtomicLsu :=
  if memHold then s
  else if id == .lrW && wordAligned memAddr then ⟨true, memAddr⟩
  else if id == .scW || id.isAmo ||
      (stdStore && stdStoreAddr.extractLsb' 2 30 == s.lrAddr.extractLsb' 2 30) then
    { s with lrValid := false }
  else s

end AtomicLsu

end Synapse32
