import Synapse32.Rtl.Decoder

/-! # The execute stage

`rtl/core_modules/alu.v`, `rtl/core_modules/csr_exec.v` and `rtl/execution_unit.v`: the whole of
EX is combinational. The four triggers' packed buses (`trigger_control`, `trigger_tdata2`) are
functions of the trigger number here. -/

namespace Synapse32

/-! ## ALU -/

/-- The one-bit result of a comparison, zero-extended. -/
def flagWord (b : Bool) : Word := if b then 1#32 else 0#32

/-- `alu.v`, the full implementation. -/
def alu (rs1 rs2 imm : Word) : InstrId → Word
  | .add => rs1 + rs2
  | .sub => rs1 - rs2
  | .xor => rs1 ^^^ rs2
  | .or => rs1 ||| rs2
  | .and => rs1 &&& rs2
  | .sll => rs1 <<< (rs2.extractLsb' 0 5).toNat
  | .srl => rs1 >>> (rs2.extractLsb' 0 5).toNat
  | .sra => rs1.sshiftRight (rs2.extractLsb' 0 5).toNat
  | .slt => flagWord (rs1.slt rs2)
  | .sltu => flagWord (rs1.ult rs2)
  | .addi => rs1 + imm
  | .xori => rs1 ^^^ imm
  | .ori => rs1 ||| imm
  | .andi => rs1 &&& imm
  | .slli => rs1 <<< (imm.extractLsb' 0 5).toNat
  | .srli => rs1 >>> (imm.extractLsb' 0 5).toNat
  | .srai => rs1.sshiftRight (imm.extractLsb' 0 5).toNat
  | .slti => flagWord (rs1.slt imm)
  | .sltiu => flagWord (rs1.ult imm)
  | .mul => (rs1.signExtend 64 * rs2.signExtend 64).extractLsb' 0 32
  | .mulh => (rs1.signExtend 64 * rs2.signExtend 64).extractLsb' 32 32
  | .mulhsu => (rs1.signExtend 64 * rs2.setWidth 64).extractLsb' 32 32
  | .mulhu => (rs1.setWidth 64 * rs2.setWidth 64).extractLsb' 32 32
  | .div =>
    if rs2 = 0#32 then 0xFFFFFFFF#32
    else if rs1 = 0x80000000#32 ∧ rs2 = 0xFFFFFFFF#32 then 0x80000000#32
    else rs1.sdiv rs2
  | .divu => if rs2 = 0#32 then 0xFFFFFFFF#32 else rs1 / rs2
  | .rem =>
    if rs2 = 0#32 then rs1
    else if rs1 = 0x80000000#32 ∧ rs2 = 0xFFFFFFFF#32 then 0x00000000#32
    else rs1.srem rs2
  | .remu => if rs2 = 0#32 then rs1 else rs1 % rs2
  | _ => 0#32

/-! ## CSR data path -/

/-- The outputs of `csr_exec.v`. -/
structure CsrExecOut where
  csrWriteData : Word
  csrWriteEnable : Bool
  rdValue : Word

/-- `csr_exec.v`: the value a CSR instruction writes, and whether it writes at all. -/
def csrExec (id : InstrId) (rs1Value : Word) (rs1Addr : BitVec 5)
    (csrReadData csrRmwData : Word) : CsrExecOut :=
  let uimm := rs1Addr.setWidth 32
  match id with
  | .csrrw => ⟨rs1Value, true, csrReadData⟩
  | .csrrs => ⟨csrRmwData ||| rs1Value, rs1Addr != 0#5, csrReadData⟩
  | .csrrc => ⟨csrRmwData &&& ~~~rs1Value, rs1Addr != 0#5, csrReadData⟩
  | .csrrwi => ⟨uimm, true, csrReadData⟩
  | .csrrsi => ⟨csrRmwData ||| uimm, rs1Addr != 0#5, csrReadData⟩
  | .csrrci => ⟨csrRmwData &&& ~~~uimm, rs1Addr != 0#5, csrReadData⟩
  | _ => ⟨0#32, false, csrReadData⟩

/-! ## Execution unit -/

/-- The forwarding selectors of `forwarding_unit.v`: `NO_FORWARDING`, `FORWARD_FROM_MEM`,
`FORWARD_FROM_WB`. -/
inductive Forward
  | noForwarding | fromMem | fromWb
  deriving DecidableEq, Repr

/-- The value a forwarding selector picks. -/
def Forward.select (f : Forward) (own exMemResult memWbResult : Word) : Word :=
  match f with
  | .noForwarding => own
  | .fromMem => exMemResult
  | .fromWb => memWbResult

/-- The inputs of `execution_unit.v`. -/
structure ExIn where
  rs1 : Word
  rs2 : Word
  imm : Word
  rs1Addr : BitVec 5
  opcode : BitVec 7
  instrId : InstrId
  instrValid : Bool
  stageEnable : Bool
  pcInput : Word
  instr : Word
  forwardA : Forward
  forwardB : Forward
  exMemResult : Word
  memWbResult : Word
  csrReadData : Word
  csrRmwData : Word
  csrValid : Bool
  interruptPending : Bool
  interruptToSupervisor : Bool
  interruptVector : Word
  mtvec : Word
  mepc : Word
  stvec : Word
  sepc : Word
  medeleg : Word
  privilegeMode : BitVec 2
  mstatus : Word
  mcounteren : Word
  scounteren : Word
  triggerEnabled : Fin 4 → Bool
  triggerCtl : Fin 4 → BitVec 7
  triggerAddr : Fin 4 → Word

/-- The registered outputs of the execution unit's main `always` block. -/
structure ExOut where
  execOutput : Word := 0#32
  jumpSignal : Bool := false
  jumpAddr : Word := 0#32
  memAddr : Word := 0#32
  flushPipeline : Bool := false
  interruptTaken : Bool := false
  mretInstruction : Bool := false
  sretInstruction : Bool := false
  trapToSupervisor : Bool := false
  ecallException : Bool := false
  ebreakException : Bool := false
  illegalInstructionException : Bool := false
  instructionAddressMisalignedException : Bool := false
  loadAddressMisalignedException : Bool := false
  storeAddressMisalignedException : Bool := false
  exceptionTval : Word := 0#32
  wfiInstruction : Bool := false
  breakpointTriggerException : Bool := false
  deriving DecidableEq

namespace ExecutionUnit

/-- `is_counter_shadow_csr`. -/
def isCounterShadowCsr (a : BitVec 12) : Bool :=
  a == 0xC00#12 || a == 0xC01#12 || a == 0xC02#12 || a == 0xC80#12 || a == 0xC81#12 || a == 0xC82#12

/-- `load_address_misaligned`. -/
def loadAddressMisaligned (id : InstrId) (addr : Word) : Bool :=
  match id with
  | .lh | .lhu => addr.getLsbD 0
  | .lw | .lrW => addr.extractLsb' 0 2 != 0#2
  | _ => false

/-- `store_address_misaligned`. -/
def storeAddressMisaligned (id : InstrId) (addr : Word) : Bool :=
  match id with
  | .sh => addr.getLsbD 0
  | .sw | .scW | .amoswapW | .amoaddW | .amoandW | .amoorW | .amoxorW
  | .amomaxW | .amominW | .amomaxuW | .amominuW => addr.extractLsb' 0 2 != 0#2
  | _ => false

variable (x : ExIn)

/-- `rs1_value`: the operand after forwarding. -/
def rs1Value : Word := x.forwardA.select x.rs1 x.exMemResult x.memWbResult

/-- `rs2_value`. -/
def rs2Value : Word := x.forwardB.select x.rs2 x.exMemResult x.memWbResult

/-- `trigger_match` for the trigger kind held in bit `kind` of a trigger's control field:
0 load, 1 store, 2 execute. -/
def triggerMatch (kind : Nat) (addr : Word) : Bool :=
  (List.finRange 4).any fun t =>
    x.triggerEnabled t && (x.triggerCtl t).getLsbD kind && addr == x.triggerAddr t

/-- `is_atomic_rmw`. -/
def isAtomicRmw : Bool :=
  x.opcode == 0b0101111#7 && !(x.instrId == .lrW) && !(x.instrId == .scW)

/-- `trigger_data_addr`. -/
def triggerDataAddr : Word :=
  if x.opcode == 0b0101111#7 then rs1Value x else rs1Value x + x.imm

/-- `execute_trigger_hit`. -/
def executeTriggerHit : Bool :=
  x.stageEnable && x.instrValid && triggerMatch x 2 x.pcInput

/-- `load_trigger_hit`. -/
def loadTriggerHit : Bool :=
  x.instrValid && (x.instrId == .lrW || isAtomicRmw x) && triggerMatch x 0 (triggerDataAddr x)

/-- `store_trigger_hit`. -/
def storeTriggerHit : Bool :=
  x.instrValid && (x.instrId == .scW || isAtomicRmw x) && triggerMatch x 1 (triggerDataAddr x)

/-- `atomic_trigger_hit`. -/
def atomicTriggerHit : Bool := loadTriggerHit x || storeTriggerHit x

/-- `csr_addr`. -/
def csrAddr : BitVec 12 := x.imm.extractLsb' 0 12

/-- `csr_read_enable`. -/
def csrReadEnable (id : InstrId) : Bool :=
  match id with
  | .csrrw | .csrrs | .csrrc | .csrrwi | .csrrsi | .csrrci => true
  | _ => false

/-- `csr_exec_inst`. -/
def csrExecInst : CsrExecOut :=
  csrExec x.instrId (rs1Value x) x.rs1Addr x.csrReadData x.csrRmwData

/-- `csr_write_enable`. -/
def csrWriteEnable : Bool := (csrExecInst x).csrWriteEnable

/-- `csr_write_data`. -/
def csrWriteData : Word := (csrExecInst x).csrWriteData

/-- `csr_read_only_violation`. -/
def csrReadOnlyViolation : Bool := (csrAddr x).extractLsb' 10 2 == 0b11#2 && csrWriteEnable x

/-- `csr_privilege_violation`. -/
def csrPrivilegeViolation : Bool := x.privilegeMode.ult ((csrAddr x).extractLsb' 8 2)

/-- `csr_satp_tvm_violation`. -/
def csrSatpTvmViolation : Bool :=
  csrAddr x == 0x180#12 && x.privilegeMode == privS && x.mstatus.getLsbD 20

/-- `sret_tsr_violation`. -/
def sretTsrViolation : Bool := x.privilegeMode == privS && x.mstatus.getLsbD 22

/-- `wfi_tw_violation`. -/
def wfiTwViolation : Bool := x.privilegeMode != privM && x.mstatus.getLsbD 21

/-- The bit of `mcounteren` or `scounteren` that guards a counter shadow. -/
def allowsCounter (counteren : Word) : Bool :=
  if csrAddr x == 0xC00#12 || csrAddr x == 0xC80#12 then counteren.getLsbD 0
  else if csrAddr x == 0xC01#12 || csrAddr x == 0xC81#12 then counteren.getLsbD 1
  else counteren.getLsbD 2

/-- `csr_counter_access_violation`. -/
def csrCounterAccessViolation : Bool :=
  isCounterShadowCsr (csrAddr x) &&
    ((x.privilegeMode == privS && !allowsCounter x x.mcounteren) ||
      (x.privilegeMode == privU &&
        (!allowsCounter x x.mcounteren || !allowsCounter x x.scounteren)))

/-- The `delegate_*` wires: a trap from below M whose `medeleg` bit is set. -/
def delegate (cause : Nat) : Bool := x.privilegeMode != privM && x.medeleg.getLsbD cause

/-- `delegate_ecall`: an `ecall` has one cause for each mode it comes from. -/
def delegateEcall : Bool :=
  (x.privilegeMode == privU && x.medeleg.getLsbD 8) ||
    (x.privilegeMode == privS && x.medeleg.getLsbD 9)

/-- The part every trap of the execution unit shares: redirect to `stvec` or `mtvec` and flush.
The exception flag and `exception_tval` are set by the caller. -/
def ExOut.trap (o : ExOut) (toSupervisor : Bool) : ExOut :=
  { o with
    jumpSignal := true
    trapToSupervisor := toSupervisor
    jumpAddr := if toSupervisor then x.stvec else x.mtvec
    flushPipeline := true }

/-- The trap taken on an illegal instruction. -/
def illegalInstruction (o : ExOut) : ExOut :=
  { ExOut.trap x o (delegate x 2) with illegalInstructionException := true }

/-- The trap taken on a trigger hit at `addr`. -/
def breakpointTrigger (o : ExOut) (addr : Word) : ExOut :=
  { ExOut.trap x o (delegate x 3) with breakpointTriggerException := true, exceptionTval := addr }

/-- The trap taken on a misaligned load. -/
def loadMisaligned (o : ExOut) (addr : Word) : ExOut :=
  { ExOut.trap x o (delegate x 4) with
    loadAddressMisalignedException := true, exceptionTval := addr }

/-- The trap taken on a misaligned store or AMO. -/
def storeMisaligned (o : ExOut) (addr : Word) : ExOut :=
  { ExOut.trap x o (delegate x 6) with
    storeAddressMisalignedException := true, exceptionTval := addr }

/-- Redirect to `target` and flush the younger instructions. -/
def redirect (o : ExOut) (target : Word) : ExOut :=
  { o with jumpSignal := true, jumpAddr := target, flushPipeline := true }

/-- A taken branch or jump: to `target`, or the misaligned-fetch trap. -/
def jumpTo (o : ExOut) (target : Word) : ExOut :=
  if target.extractLsb' 0 2 != 0#2 then
    { ExOut.trap x o (delegate x 0) with
      instructionAddressMisalignedException := true, exceptionTval := target }
  else redirect o target

/-- Loads. -/
def executeLoad : ExOut :=
  let addr := rs1Value x + x.imm
  let o : ExOut := { memAddr := addr }
  if triggerMatch x 0 addr then breakpointTrigger x o addr
  else if loadAddressMisaligned x.instrId addr then loadMisaligned x o addr
  else o

/-- Stores. -/
def executeStore : ExOut :=
  let addr := rs1Value x + x.imm
  let o : ExOut := { memAddr := addr }
  if triggerMatch x 1 addr then breakpointTrigger x o addr
  else if storeAddressMisaligned x.instrId addr then storeMisaligned x o addr
  else o

/-- LR, SC and the AMOs. -/
def executeAtomic : ExOut :=
  let addr := rs1Value x
  let o : ExOut := { memAddr := addr }
  if atomicTriggerHit x then breakpointTrigger x o addr
  else if loadAddressMisaligned x.instrId addr then loadMisaligned x o addr
  else if storeAddressMisaligned x.instrId addr then storeMisaligned x o addr
  else o

/-- The condition of a branch. -/
def branchTaken (id : InstrId) (a b : Word) : Bool :=
  match id with
  | .beq => a == b
  | .bne => a != b
  | .blt => a.slt b
  | .bge => !a.slt b
  | .bltu => a.ult b
  | .bgeu => !a.ult b
  | _ => false

/-- Branches. -/
def executeBranch : ExOut :=
  if branchTaken x.instrId (rs1Value x) (rs2Value x) then jumpTo x {} (x.pcInput + x.imm) else {}

/-- CSR instructions. -/
def executeCsr : ExOut :=
  if !x.csrValid || csrReadOnlyViolation x || csrPrivilegeViolation x ||
      csrSatpTvmViolation x || csrCounterAccessViolation x then illegalInstruction x {}
  else if csrWriteEnable x then
    -- A CSR write refetches what follows.
    redirect { execOutput := (csrExecInst x).rdValue } (x.pcInput + 4#32)
  else { execOutput := (csrExecInst x).rdValue }

/-- System instructions; any id outside the first six is a CSR instruction. -/
def executeSystem : ExOut :=
  match x.instrId with
  | .mret =>
    if x.privilegeMode != privM then illegalInstruction x {}
    else { redirect {} x.mepc with mretInstruction := true }
  | .sret =>
    if x.privilegeMode.ult privS || sretTsrViolation x then illegalInstruction x {}
    else { redirect {} x.sepc with sretInstruction := true }
  | .ecall => { ExOut.trap x {} (delegateEcall x) with ecallException := true }
  | .ebreak => { ExOut.trap x {} (delegate x 3) with ebreakException := true }
  | .wfi =>
    if wfiTwViolation x then illegalInstruction x {}
    else { redirect {} (x.pcInput + 4#32) with wfiInstruction := true }
  | .sfenceVma =>
    if x.privilegeMode == privU || (x.privilegeMode == privS && x.mstatus.getLsbD 20) then
      illegalInstruction x {}
    else redirect {} (x.pcInput + 4#32)
  | _ => executeCsr x

/-- The `case (opcode)` of the main block. -/
def executeOpcode : ExOut :=
  if x.opcode = 0b0110011#7 ∨ x.opcode = 0b0010011#7 then
    { execOutput := alu (rs1Value x) (rs2Value x) x.imm x.instrId }
  else if x.opcode = 0b0000011#7 then executeLoad x
  else if x.opcode = 0b0100011#7 then executeStore x
  else if x.opcode = 0b0101111#7 then executeAtomic x
  else if x.opcode = 0b1100011#7 then executeBranch x
  else if x.opcode = 0b1101111#7 then
    jumpTo x { execOutput := x.pcInput + 4#32 } (x.pcInput + x.imm)
  else if x.opcode = 0b1100111#7 then
    -- JALR drops bit 0 of its target.
    jumpTo x { execOutput := x.pcInput + 4#32 } ((rs1Value x + x.imm) &&& 0xFFFFFFFE#32)
  else if x.opcode = 0b0110111#7 then { execOutput := x.imm }
  else if x.opcode = 0b0010111#7 then { execOutput := x.pcInput + x.imm }
  else if x.opcode = 0b1110011#7 then executeSystem x
  else if x.opcode = 0b0001111#7 then
    if x.instrId = .fenceI then redirect {} (x.pcInput + 4#32) else {}
  else {}

/-- The main block before `stage_enable` gates it: an interrupt first, then an execute trigger,
then an undecodable word, then the instruction. -/
def ungated : ExOut :=
  if x.interruptPending then
    { redirect {} x.interruptVector with
      trapToSupervisor := x.interruptToSupervisor, interruptTaken := true }
  else if executeTriggerHit x then breakpointTrigger x {} x.pcInput
  else if x.instrValid = true ∧ x.instrId = .invalid then illegalInstruction x {}
  else executeOpcode x

/-- While EX is held the instruction takes none of its effects. -/
def gate (stageEnable : Bool) (o : ExOut) : ExOut :=
  if stageEnable then o else
    { execOutput := o.execOutput, jumpAddr := o.jumpAddr, memAddr := o.memAddr,
      exceptionTval := o.exceptionTval }

/-- An illegal-instruction trap reports the instruction word. -/
def reportInstr (instr : Word) (o : ExOut) : ExOut :=
  if o.illegalInstructionException then { o with exceptionTval := instr } else o

end ExecutionUnit

open ExecutionUnit in
/-- `execution_unit.v`. -/
def executionUnit (x : ExIn) : ExOut := reportInstr x.instr (gate x.stageEnable (ungated x))

end Synapse32
