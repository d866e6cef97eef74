import Synapse32.Rtl.Pipeline
import Synapse32.Lib.Clocked

/-! # The core

`rtl/riscv_cpu.v`. A wire of the source is a function of the registers, or of the registers and
the inputs of the cycle; `next` is the clock edge. Reset is not an input: a run starts from the
registers that reset leaves. -/

namespace Synapse32

/-- The registers of `riscv_cpu.v` and of the modules it instantiates. -/
structure RiscvCpu where
  pc : Word
  ifId : IfId
  idEx : IdEx
  exMem : ExMem
  memWb : MemWb
  registerFile : Registerfile
  csrFile : CsrFile
  atomicLsu : AtomicLsu
  wfiActive : Bool
  fetchOutstanding : Bool
  fetchDiscard : Bool
  amoWritePhase : Bool
  amoReadData : Word

/-- The inputs of `riscv_cpu.v` in one cycle. `module_page_fault_addr_in` and `module_data_gnt_in`
have no reader. -/
structure CpuIn where
  instrIn : Word
  readDataIn : Word
  loadPageFaultIn : Bool
  storePageFaultIn : Bool
  instrPageFaultIn : Bool
  instrGntIn : Bool
  instrRvalidIn : Bool
  dataRvalidIn : Bool
  storeBufferEmptyIn : Bool
  dataCacheCleanIn : Bool
  timerInterrupt : Bool
  machineSoftwareInterrupt : Bool
  machineExternalInterrupt : Bool
  supervisorExternalInterrupt : Bool
  mtimeIn : BitVec 64

namespace RiscvCpu

/-- The registers after reset. -/
def reset : RiscvCpu where
  pc := 0x80000000#32
  ifId := ⟨0#32, nopInstr, false, false⟩
  idEx := IdEx.bubble 0#32
  exMem := ExMem.bubble 0#32
  memWb := MemWb.bubble 0#32
  registerFile := fun _ => 0#32
  csrFile := CsrFile.reset
  atomicLsu := ⟨false, 0#32⟩
  wfiActive := false
  fetchOutstanding := false
  fetchDiscard := false
  amoWritePhase := false
  amoReadData := 0#32

variable (s : RiscvCpu) (i : CpuIn)

/-! ## Memory requests

The request wires of MEM depend on registers alone. -/

/-- `is_lr_w`. -/
def isLrW : Bool := s.exMem.instrId == .lrW

/-- `is_sc_w`. -/
def isScW : Bool := s.exMem.instrId == .scW

/-- `is_amo_w`. -/
def isAmoW : Bool := s.exMem.instrId.isAmo

/-- `atomic_read_enable`. -/
def atomicReadEnable : Bool := isLrW s || isAmoW s

/-- `sc_success`. -/
def scSuccess : Bool := s.atomicLsu.scSuccess s.exMem.instrId s.exMem.memAddr

/-- `sc_result`. -/
def scResult : Word := if scSuccess s then 0#32 else 1#32

/-- `atomic_write_enable`. -/
def atomicWriteEnable : Bool := (isScW s && scSuccess s) || isAmoW s

/-- `ex_mem_store_be`. -/
def exMemStoreBe : BitVec 4 := MemoryUnit.writeByteEnable s.exMem.instrId s.exMem.memAddr

/-- `ex_mem_std_store_req`. -/
def exMemStdStoreReq : Bool := s.exMem.instrId.isPlainStore && exMemStoreBe s != 0b0000#4

/-- `amo_read_phase`. -/
def amoReadPhase : Bool := isAmoW s && !s.amoWritePhase

/-- `ex_mem_read_req`, which is `module_mem_rd_en`. -/
def memRdEn : Bool :=
  s.exMem.instrId.isPlainLoad || (atomicReadEnable s && !(isAmoW s && s.amoWritePhase))

/-- `module_mem_wr_en`. -/
def memWrEn : Bool :=
  (atomicWriteEnable s && (!isAmoW s || s.amoWritePhase)) || exMemStdStoreReq s

/-- `module_read_addr`. -/
def readAddr : Word := s.exMem.memAddr

/-- `module_write_addr`. -/
def writeAddr : Word := s.exMem.memAddr

/-- `module_write_byte_enable`. -/
def writeByteEnable : BitVec 4 := if atomicWriteEnable s then 0b1111#4 else exMemStoreBe s

/-- `module_load_type`, which is `ex_mem_read_type`. -/
def loadType : BitVec 3 :=
  if isLrW s || isAmoW s then 0b010#3 else MemoryUnit.loadType s.exMem.instrId

/-- `module_data_write_intent_out`. -/
def dataWriteIntent : Bool := memWrEn s || isAmoW s

/-- `mem_read_data_effective`. -/
def memReadDataEffective : Word :=
  if memRdEn s then extendLoad (loadType s) i.readDataIn else i.readDataIn

/-- The value an AMO read: captured in the write phase, else the response of this cycle. -/
def amoOldWord : Word := if s.amoWritePhase then s.amoReadData else memReadDataEffective s i

/-- `module_wr_data_out`. -/
def wrDataOut : Word :=
  if atomicWriteEnable s then
    if isAmoW s then AtomicLsu.newWord s.exMem.instrId (amoOldWord s i) s.exMem.rs2Value
    else s.exMem.rs2Value
  else MemoryUnit.wrData s.exMem.instrId s.exMem.rs2Value

/-! ## Waiting and page faults in MEM -/

/-- `mem_stage_load_page_fault`. -/
def memStageLoadPageFault : Bool := i.loadPageFaultIn && memRdEn s

/-- `mem_stage_store_page_fault`. -/
def memStageStorePageFault : Bool := i.storePageFaultIn && dataWriteIntent s

/-- `mem_stage_page_fault_taken`. -/
def memStagePageFaultTaken : Bool := memStageLoadPageFault s i || memStageStorePageFault s i

/-- `mem_wait`: the access is outstanding, or an AMO still has its write to issue. -/
def memWait : Bool :=
  (memRdEn s || memWrEn s) && !(i.dataRvalidIn && !amoReadPhase s) && !memStagePageFaultTaken s i

/-- `fence_drain_stall`. -/
def fenceDrainStall : Bool :=
  s.idEx.instrValid &&
    ((!i.storeBufferEmptyIn && (s.idEx.dec.instrId == .fence || s.idEx.dec.instrId == .fenceI)) ||
      (!i.dataCacheCleanIn && s.idEx.dec.instrId == .fenceI))

/-- `ex_stage_active`. -/
def exStageActive : Bool := !memWait s i && !fenceDrainStall s i

/-- `fetch_response_valid`. -/
def fetchResponseValid : Bool := i.instrRvalidIn && !s.fetchDiscard

/-- `fetch_wait`. -/
def fetchWait : Bool := !fetchResponseValid s i && !i.instrPageFaultIn

/-- `wfi_resume_pending`. -/
def wfiResumePending : Bool := (s.csrFile.mip &&& s.csrFile.mie &&& 0x00000AAA#32) != 0#32

/-- `wfi_stall`. -/
def wfiStall : Bool := s.wfiActive && !wfiResumePending s

/-- `pipeline_hold`. -/
def pipelineHold : Bool := wfiStall s || fenceDrainStall s i || memWait s i

/-- `hazard_stall`. -/
def hazardStall : Bool := loadUseDetector (decoder s.ifId.instruction) s.idEx.dec

/-- `pipeline_stall`. -/
def pipelineStall : Bool := hazardStall s || pipelineHold s i

/-! ## Privilege and trap targets -/

/-- `trigger_enabled_in_mode`. -/
def triggerEnabledInMode (control : BitVec 7) (mode : BitVec 2)
    (machineInterruptsEnabled supervisorInterruptsEnabled : Bool) : Bool :=
  if mode = privM then control.getLsbD 6 && machineInterruptsEnabled
  else if mode = privS then control.getLsbD 4 && supervisorInterruptsEnabled
  else control.getLsbD 3

/-- `trigger_enabled`. -/
def triggerEnabled (t : Fin 4) : Bool :=
  triggerEnabledInMode (s.csrFile.triggerCtl t) s.csrFile.privilegeMode
    (s.csrFile.mstatus.getLsbD 3) (!s.csrFile.medeleg.getLsbD 3 || s.csrFile.mstatus.getLsbD 1)

/-- `data_privilege_mode`: the mode of data accesses, under MPRV. -/
def dataPrivilegeMode : BitVec 2 :=
  if s.csrFile.privilegeMode == privM && s.csrFile.mstatus.getLsbD 17 then
    s.csrFile.mstatus.extractLsb' 11 2
  else s.csrFile.privilegeMode

/-- `data_mmu_enable`. -/
def dataMmuEnable : Bool := dataPrivilegeMode s != privM && s.csrFile.satp.getLsbD 31

/-- `module_instr_mmu_enable_out`. -/
def instrMmuEnable : Bool := s.csrFile.privilegeMode != privM && s.csrFile.satp.getLsbD 31

/-- `mtvec_base`. -/
def mtvecBase : Word := s.csrFile.mtvec.extractLsb' 2 30 ++ 0#2

/-- `stvec_base`. -/
def stvecBase : Word := s.csrFile.stvec.extractLsb' 2 30 ++ 0#2

/-- The interrupt controller's outputs. -/
def interrupt : InterruptOut :=
  interruptController s.csrFile.mstatus s.csrFile.mie s.csrFile.mip s.csrFile.mideleg
    s.csrFile.privilegeMode

/-- `interrupt_vectored`. -/
def interruptVectored : Bool :=
  if (interrupt s).interruptToSupervisor then s.csrFile.stvec.getLsbD 0
  else s.csrFile.mtvec.getLsbD 0

/-- `interrupt_vector`. -/
def interruptVector : Word :=
  (if (interrupt s).interruptToSupervisor then stvecBase s else mtvecBase s) +
    (if interruptVectored s then (interrupt s).interruptCause.extractLsb' 0 30 ++ 0#2 else 0#32)

/-- `mem_stage_trap_to_supervisor`. -/
def memStageTrapToSupervisor : Bool :=
  s.csrFile.privilegeMode != privM &&
    ((memStageLoadPageFault s i && s.csrFile.medeleg.getLsbD 13) ||
      (memStageStorePageFault s i && s.csrFile.medeleg.getLsbD 15))

/-- `mem_stage_jump_addr`. -/
def memStageJumpAddr : Word := if memStageTrapToSupervisor s i then stvecBase s else mtvecBase s

/-- `instr_stage_trap_to_supervisor`. -/
def instrStageTrapToSupervisor : Bool :=
  s.csrFile.privilegeMode != privM && s.csrFile.medeleg.getLsbD 12

/-- `instr_stage_jump_addr`. -/
def instrStageJumpAddr : Word := if instrStageTrapToSupervisor s then stvecBase s else mtvecBase s

/-! ## Execute -/

/-- `csr_addr`, a slice of EX's immediate. -/
def csrAddr : BitVec 12 := s.idEx.dec.imm.extractLsb' 0 12

/-- `csr_read_data`. -/
def csrReadData : Word :=
  s.csrFile.readData i.mtimeIn (csrAddr s) (ExecutionUnit.csrReadEnable s.idEx.dec.instrId)

/-- `csr_rmw_data`. -/
def csrRmwData : Word :=
  s.csrFile.rmwData i.mtimeIn (csrAddr s) (ExecutionUnit.csrReadEnable s.idEx.dec.instrId)

/-- `ex_mem_forward_result`, which is also `ex_mem_exec_output_to_mem_wb`: an SC has its result in
MEM only. -/
def exMemForwardResult : Word := if isScW s then scResult s else s.exMem.execOutput

/-- The inputs of the execution unit, given whether it sees an interrupt. -/
def exInWith (interruptPending : Bool) : ExIn where
  rs1 := s.idEx.rs1Value
  rs2 := s.idEx.rs2Value
  imm := s.idEx.dec.imm
  rs1Addr := s.idEx.dec.rs1
  opcode := s.idEx.dec.opcode
  instrId := s.idEx.dec.instrId
  instrValid := s.idEx.instrValid
  stageEnable := exStageActive s i
  pcInput := s.idEx.pc
  instr := s.idEx.instr
  forwardA := forwardingUnit s.idEx.dec.rs1 s.idEx.dec.rs1Valid s.exMem s.memWb
  forwardB := forwardingUnit s.idEx.dec.rs2 s.idEx.dec.rs2Valid s.exMem s.memWb
  exMemResult := exMemForwardResult s
  memWbResult := s.memWb.rdValue
  csrReadData := csrReadData s i
  csrRmwData := csrRmwData s i
  csrValid := CsrFile.csrValid (csrAddr s)
  interruptPending := interruptPending
  interruptToSupervisor := (interrupt s).interruptToSupervisor
  interruptVector := interruptVector s
  mtvec := mtvecBase s
  mepc := s.csrFile.mepc
  stvec := stvecBase s
  sepc := s.csrFile.sepc
  medeleg := s.csrFile.medeleg
  privilegeMode := s.csrFile.privilegeMode
  mstatus := s.csrFile.mstatus
  mcounteren := s.csrFile.mcounteren
  scounteren := s.csrFile.scounteren
  triggerEnabled := triggerEnabled s
  triggerCtl := s.csrFile.triggerCtl
  triggerAddr := s.csrFile.triggerAddr

/-- `execute_trigger_hit`, which does not look at the interrupt input. -/
def executeTriggerHit : Bool := ExecutionUnit.executeTriggerHit (exInWith s i false)

/-- `instr_stage_page_fault_taken`. -/
def instrStagePageFaultTaken : Bool :=
  s.idEx.instrPageFault && s.idEx.instrValid && exStageActive s i && !executeTriggerHit s i

/-- The inputs of the execution unit: a page fault that is taken hides the interrupt. -/
def exIn : ExIn :=
  exInWith s i ((interrupt s).interruptPending && !memStagePageFaultTaken s i &&
    !instrStagePageFaultTaken s i)

/-- The outputs of the execution unit. -/
def exOut : ExOut := executionUnit (exIn s i)

/-- `csr_write_enable`. -/
def csrWriteEnable : Bool := ExecutionUnit.csrWriteEnable (exIn s i)

/-- `synchronous_exception_taken`. -/
def synchronousExceptionTaken : Bool :=
  (exOut s i).ecallException || (exOut s i).ebreakException ||
    (exOut s i).breakpointTriggerException || (exOut s i).illegalInstructionException ||
    (exOut s i).instructionAddressMisalignedException ||
    (exOut s i).loadAddressMisalignedException || (exOut s i).storeAddressMisalignedException

/-- `interrupt_taken_qualified`. -/
def interruptTakenQualified : Bool :=
  (exOut s i).interruptTaken && !synchronousExceptionTaken s i && !memStagePageFaultTaken s i &&
    !instrStagePageFaultTaken s i

/-- `instret_increment`. -/
def instretIncrement : Bool :=
  s.idEx.instrValid && exStageActive s i && s.idEx.dec.instrId != .invalid &&
    !(exOut s i).interruptTaken && !synchronousExceptionTaken s i && !memStagePageFaultTaken s i

/-! ## Redirects -/

/-- `pc_inst0_j_signal`. -/
def jSignal : Bool :=
  memStagePageFaultTaken s i || instrStagePageFaultTaken s i || (exOut s i).jumpSignal

/-- `pc_inst0_jump`. -/
def jump : Word :=
  if memStagePageFaultTaken s i then memStageJumpAddr s i
  else if instrStagePageFaultTaken s i then instrStageJumpAddr s
  else (exOut s i).jumpAddr

/-- `if_id_flush`, which is `pipeline_flush`. -/
def pipelineFlush : Bool :=
  (exOut s i).jumpSignal || (exOut s i).flushPipeline || memStagePageFaultTaken s i ||
    instrStagePageFaultTaken s i

/-- `module_next_pc_out`. -/
def nextPc : Word :=
  if jSignal s i then jump s i
  else if pipelineStall s i || fetchWait s i then s.pc
  else s.pc + 4#32

/-- The flush input of EX/MEM. -/
def exMemFlush : Bool :=
  memStagePageFaultTaken s i || instrStagePageFaultTaken s i || synchronousExceptionTaken s i ||
    interruptTakenQualified s i

/-- `module_next_data_addr_out`. -/
def nextDataAddr : Word := if memWait s i then s.exMem.memAddr else (exOut s i).memAddr

/-- `module_tlb_flush_out`. -/
def tlbFlush : Bool :=
  exStageActive s i && s.idEx.instrValid &&
    (s.idEx.dec.instrId == .sfenceVma || (csrWriteEnable s i && csrAddr s == 0x180#12))

/-- `module_data_cache_clean_req_out`. -/
def dataCacheCleanReq : Bool := s.idEx.instrValid && s.idEx.dec.instrId == .fenceI

/-- `module_instr_cache_flush_out`. -/
def instrCacheFlush : Bool :=
  exStageActive s i && s.idEx.instrValid && s.idEx.dec.instrId == .fenceI

/-! ## Trap bookkeeping -/

/-- `interrupt_pc`: the oldest unexecuted instruction. -/
def interruptPc : Word :=
  if s.idEx.instrValid then s.idEx.pc
  else if s.ifId.instructionValid then s.ifId.pc
  else s.pc

/-- `csr_exception_pc`. -/
def csrExceptionPc : Word :=
  if memStagePageFaultTaken s i then s.exMem.pc else s.idEx.pc

/-- `csr_trap_to_supervisor`. -/
def csrTrapToSupervisor : Bool :=
  if memStagePageFaultTaken s i then memStageTrapToSupervisor s i
  else if instrStagePageFaultTaken s i then instrStageTrapToSupervisor s
  else (exOut s i).trapToSupervisor

/-- `csr_exception_tval`. -/
def csrExceptionTval : Word :=
  if memStagePageFaultTaken s i then s.exMem.memAddr
  else if instrStagePageFaultTaken s i then s.idEx.pc
  else (exOut s i).exceptionTval

/-- The inputs of the CSR file. -/
def csrIn : CsrIn where
  csrAddr := csrAddr s
  writeData := ExecutionUnit.csrWriteData (exIn s i)
  writeEnable := csrWriteEnable s i && exStageActive s i
  interruptCauseIn := (interrupt s).interruptCause
  interruptPcIn := interruptPc s
  exceptionPcIn := csrExceptionPc s i
  interruptTaken := interruptTakenQualified s i
  mretInstruction := (exOut s i).mretInstruction
  sretInstruction := (exOut s i).sretInstruction
  interruptToSupervisor := (interrupt s).interruptToSupervisor
  trapToSupervisor := csrTrapToSupervisor s i
  ecallException := (exOut s i).ecallException
  ebreakException := (exOut s i).ebreakException
  illegalInstructionException := (exOut s i).illegalInstructionException
  instructionAddressMisalignedException := (exOut s i).instructionAddressMisalignedException
  loadAddressMisalignedException := (exOut s i).loadAddressMisalignedException
  storeAddressMisalignedException := (exOut s i).storeAddressMisalignedException
  instrPageFaultException := instrStagePageFaultTaken s i
  loadPageFaultException := memStageLoadPageFault s i
  storePageFaultException := memStageStorePageFault s i
  breakpointTriggerException := (exOut s i).breakpointTriggerException
  exceptionTvalIn := csrExceptionTval s i
  instretIncrement := instretIncrement s i
  timerInterrupt := i.timerInterrupt
  machineSoftwareInterrupt := i.machineSoftwareInterrupt
  machineExternalInterrupt := i.machineExternalInterrupt
  supervisorExternalInterrupt := i.supervisorExternalInterrupt

/-! ## The clock edge -/

/-- What decode presents to ID/EX. -/
def decodeOut : IdEx where
  dec := decoder s.ifId.instruction
  pc := s.ifId.pc
  instr := s.ifId.instruction
  rs1Value :=
    s.registerFile.read (decoder s.ifId.instruction).rs1 (decoder s.ifId.instruction).rs1Valid
      s.memWb.rdAddr s.memWb.wrEn s.memWb.rdValue
  rs2Value :=
    s.registerFile.read (decoder s.ifId.instruction).rs2 (decoder s.ifId.instruction).rs2Valid
      s.memWb.rdAddr s.memWb.wrEn s.memWb.rdValue
  instrValid := s.ifId.instructionValid
  instrPageFault := s.ifId.instrPageFault

/-- What EX presents to EX/MEM. -/
def executeOut : ExMem where
  rdAddr := s.idEx.dec.rd
  rs2Value := ExecutionUnit.rs2Value (exIn s i)
  pc := s.idEx.pc
  memAddr := (exOut s i).memAddr
  execOutput := (exOut s i).execOutput
  instrId := s.idEx.dec.instrId
  rdValid := s.idEx.dec.rdValid

/-- What MEM presents to MEM/WB. -/
def memOut : MemWb where
  rdAddr := s.exMem.rdAddr
  pc := s.exMem.pc
  execOutput := exMemForwardResult s
  -- A page fault takes the write-back along.
  instrId := if memStagePageFaultTaken s i then .invalid else s.exMem.instrId
  rdValid := !memStagePageFaultTaken s i && s.exMem.rdValid
  memData := amoOldWord s i

/-- `fetch_outstanding` after the edge. -/
def nextFetchOutstanding : Bool :=
  if i.instrRvalidIn then false else if i.instrGntIn then true else s.fetchOutstanding

/-- `fetch_discard` after the edge. -/
def nextFetchDiscard : Bool :=
  -- The fetch that is out is for an address that the PC has left.
  if jSignal s i && (s.fetchOutstanding || i.instrGntIn) && !i.instrRvalidIn then true
  else if i.instrRvalidIn then false
  else s.fetchDiscard

/-- `wfi_active` after the edge. -/
def nextWfiActive : Bool :=
  -- A pending interrupt wakes the core and keeps a WFI from sleeping.
  if wfiResumePending s then false
  else if (exOut s i).wfiInstruction then true
  else s.wfiActive

/-- The clock edge of `riscv_cpu.v`. -/
def next : RiscvCpu where
  pc := nextPc s i
  ifId :=
    s.ifId.next s.pc i.instrIn i.instrPageFaultIn
      -- A fetch that is waited for leaves a bubble, unless decode keeps what it has.
      (pipelineFlush s i || (fetchWait s i && !pipelineStall s i))
      (pipelineStall s i && !pipelineFlush s i)
  idEx :=
    s.idEx.next (decodeOut s) (ExecutionUnit.rs1Value (exIn s i))
      (ExecutionUnit.rs2Value (exIn s i)) (pipelineFlush s i)
      (pipelineHold s i && !pipelineFlush s i) (hazardStall s && !pipelineFlush s i)
  exMem := s.exMem.next (executeOut s i) (exMemFlush s i) (memWait s i)
  memWb := MemWb.next (memOut s i) (memWait s i)
  registerFile := s.registerFile.next s.memWb.rdAddr s.memWb.wrEn s.memWb.rdValue
  csrFile := s.csrFile.next (csrIn s i)
  atomicLsu :=
    s.atomicLsu.next s.exMem.instrId s.exMem.memAddr (memWait s i) (exMemStdStoreReq s)
      s.exMem.memAddr
  wfiActive := nextWfiActive s i
  fetchOutstanding := nextFetchOutstanding s i
  fetchDiscard := nextFetchDiscard s i
  -- The answer to the read opens the write phase, that to the write closes it.
  amoWritePhase :=
    if amoReadPhase s && i.dataRvalidIn then true
    else if s.amoWritePhase && i.dataRvalidIn then false
    else s.amoWritePhase
  amoReadData :=
    if amoReadPhase s && i.dataRvalidIn then memReadDataEffective s i else s.amoReadData

/-- The core before cycle `n`, from reset, under a stream of inputs. -/
def run (ins : ℕ → CpuIn) (n : ℕ) : RiscvCpu := Clocked.run next reset ins n

end RiscvCpu

end Synapse32
