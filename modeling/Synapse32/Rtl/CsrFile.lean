import Synapse32.Rtl.ExecutionUnit

/-! # CSR file and interrupt controller

`rtl/core_modules/csr_file.v` and `rtl/core_modules/interrupt_controller.v`. -/

namespace Synapse32

/-- Replace bit `i` of a word. -/
def setBit (w : Word) (i : Nat) (b : Bool) : Word :=
  if b then w ||| (1#32 <<< i) else w &&& ~~~(1#32 <<< i)

/-- A bit of a word with one bit replaced. -/
@[simp] theorem getLsbD_setBit (w : Word) {i : ℕ} (hi : i < 32) (b : Bool) (j : ℕ) :
    (setBit w i b).getLsbD j = if j = i then b else w.getLsbD j := by
  have hone : (1#32 <<< i).getLsbD j = decide (j = i) := by
    rw [BitVec.getLsbD_shiftLeft, BitVec.getLsbD_one]
    by_cases h : j = i
    · subst h
      simp [hi]
    · simp only [h, decide_false]
      by_cases hlt : j < i
      · simp [hlt]
      · have : j - i ≠ 0 := by omega
        simp [this]
  unfold setBit
  cases b
  · rw [if_neg Bool.false_ne_true, BitVec.getLsbD_and, BitVec.getLsbD_not, hone]
    by_cases h : j = i
    · simp [h]
    · rw [if_neg h]
      by_cases hj : j < 32
      · simp [h, hj]
      · simp [h, hj, BitVec.getLsbD_of_ge w j (by omega)]
  · rw [if_pos rfl, BitVec.getLsbD_or, hone]
    by_cases h : j = i <;> simp [h]

/-- The bits of a word with one bit set. -/
@[simp] theorem getElem_setBit (w : Word) {i : ℕ} (hi : i < 32) (b : Bool) {j : ℕ} (hj : j < 32) :
    (setBit w i b)[j] = if j = i then b else w[j] := by
  rw [← BitVec.getLsbD_eq_getElem, getLsbD_setBit w hi, BitVec.getLsbD_eq_getElem hj]

/-- The registers of `csr_file.v`. -/
structure CsrFile where
  mstatus : Word
  misa : Word
  medeleg : Word
  mideleg : Word
  mie : Word
  mtvec : Word
  mcounteren : Word
  mscratch : Word
  mepc : Word
  mcause : Word
  mtval : Word
  mip : Word
  mcountinhibit : Word
  cycleCounter : BitVec 64
  instretCounter : BitVec 64
  privilegeMode : BitVec 2
  stvec : Word
  scounteren : Word
  sscratch : Word
  sepc : Word
  scause : Word
  stval : Word
  satp : Word
  pmpcfg0 : Word
  pmpaddr0 : Word
  tselect : BitVec 2
  triggerCtl : Fin 4 → BitVec 7
  triggerAddr : Fin 4 → Word
  ssipSoftwarePending : Bool
  stipSoftwarePending : Bool
  seipSoftwarePending : Bool

/-- The inputs of `csr_file.v` besides the CSR access itself. -/
structure CsrIn where
  csrAddr : BitVec 12
  writeData : Word
  writeEnable : Bool
  interruptCauseIn : Word
  interruptPcIn : Word
  exceptionPcIn : Word
  interruptTaken : Bool
  mretInstruction : Bool
  sretInstruction : Bool
  interruptToSupervisor : Bool
  trapToSupervisor : Bool
  ecallException : Bool
  ebreakException : Bool
  illegalInstructionException : Bool
  instructionAddressMisalignedException : Bool
  loadAddressMisalignedException : Bool
  storeAddressMisalignedException : Bool
  instrPageFaultException : Bool
  loadPageFaultException : Bool
  storePageFaultException : Bool
  breakpointTriggerException : Bool
  exceptionTvalIn : Word
  instretIncrement : Bool
  timerInterrupt : Bool
  machineSoftwareInterrupt : Bool
  machineExternalInterrupt : Bool
  supervisorExternalInterrupt : Bool

namespace CsrFile

/-- `SSTATUS_MASK`. -/
def sstatusMask : Word := 0x000C0122#32

/-- `S_INTERRUPT_MASK`. -/
def sInterruptMask : Word := 0x00000222#32

/-- `MSTATUS_WRITABLE_MASK`. -/
def mstatusWritableMask : Word := 0x007E19AA#32

/-- `SUPPORTED_MISA`. -/
def supportedMisa : Word := 0x40141101#32

/-- `MCOUNTINHIBIT_MASK`. -/
def mcountinhibitMask : Word := 0x00000005#32

/-- `COUNTEREN_MASK`. -/
def counterenMask : Word := 0x00000007#32

/-- The registers after reset. -/
def reset : CsrFile where
  mstatus := 0x00001800#32
  misa := supportedMisa
  medeleg := 0#32
  mideleg := 0#32
  mie := 0#32
  mtvec := 0#32
  mcounteren := 0#32
  mscratch := 0#32
  mepc := 0#32
  mcause := 0#32
  mtval := 0#32
  mip := 0#32
  mcountinhibit := 0#32
  cycleCounter := 0#64
  instretCounter := 0#64
  privilegeMode := privM
  stvec := 0#32
  scounteren := 0#32
  sscratch := 0#32
  sepc := 0#32
  scause := 0#32
  stval := 0#32
  satp := 0#32
  pmpcfg0 := 0#32
  pmpaddr0 := 0#32
  tselect := 0#2
  triggerCtl := fun _ => 0#7
  triggerAddr := fun _ => 0#32
  ssipSoftwarePending := false
  stipSoftwarePending := false
  seipSoftwarePending := false

/-- The CSR addresses of the `csr_valid` disjunction, its three ranges apart. -/
def validAddrs : List (BitVec 12) :=
  [0x300, 0x301, 0x302, 0x303, 0x304, 0x305, 0x306, 0x340, 0x341, 0x342, 0x343, 0x320,
    0x100, 0x104, 0x105, 0x106, 0x140, 0x141, 0x142, 0x143, 0x144, 0x180, 0x344,
    0x3A0, 0x3B0, 0xB00, 0xB02, 0xB80, 0xB82, 0xC00, 0xC01, 0xC02, 0xC80, 0xC81, 0xC82,
    0x7A0, 0x7A1, 0x7A2, 0x7A3, 0xF11, 0xF12, 0xF13, 0xF14,
    0x310, 0x30A, 0x31A, 0x747, 0x757, 0xF15]

/-- `csr_valid`. -/
def csrValid (a : BitVec 12) : Bool :=
  validAddrs.contains a ||
    (0xB03#12 ≤ a && a ≤ 0xB1F#12) || (0xB83#12 ≤ a && a ≤ 0xB9F#12) ||
    (0x323#12 ≤ a && a ≤ 0x33F#12)

/-- `read_data`. -/
def readData (s : CsrFile) (mtimeIn : BitVec 64) (a : BitVec 12) (readEnable : Bool) : Word :=
  if readEnable && csrValid a then
    if a = 0x300#12 then s.mstatus
    else if a = 0x100#12 then s.mstatus &&& sstatusMask
    else if a = 0x301#12 then s.misa
    else if a = 0x302#12 then s.medeleg
    else if a = 0x303#12 then s.mideleg
    else if a = 0x304#12 then s.mie
    else if a = 0x104#12 then s.mie &&& sInterruptMask
    else if a = 0x305#12 then s.mtvec
    else if a = 0x306#12 then s.mcounteren
    else if a = 0x340#12 then s.mscratch
    else if a = 0x341#12 then s.mepc
    else if a = 0x342#12 then s.mcause
    else if a = 0x343#12 then s.mtval
    else if a = 0x344#12 then s.mip
    else if a = 0x320#12 then s.mcountinhibit
    else if a = 0x105#12 then s.stvec
    else if a = 0x106#12 then s.scounteren
    else if a = 0x140#12 then s.sscratch
    else if a = 0x141#12 then s.sepc
    else if a = 0x142#12 then s.scause
    else if a = 0x143#12 then s.stval
    else if a = 0x180#12 then s.satp
    else if a = 0x144#12 then s.mip &&& sInterruptMask
    -- The counters and their shadows.
    else if a = 0xB00#12 ∨ a = 0xC00#12 then s.cycleCounter.extractLsb' 0 32
    else if a = 0xB02#12 ∨ a = 0xC02#12 then s.instretCounter.extractLsb' 0 32
    else if a = 0xB80#12 ∨ a = 0xC80#12 then s.cycleCounter.extractLsb' 32 32
    else if a = 0xB82#12 ∨ a = 0xC82#12 then s.instretCounter.extractLsb' 32 32
    else if a = 0xC01#12 then mtimeIn.extractLsb' 0 32
    else if a = 0xC81#12 then mtimeIn.extractLsb' 32 32
    else if a = 0x7A0#12 then s.tselect.setWidth 32
    else if a = 0x7A1#12 then 2#4 ++ 0#21 ++ s.triggerCtl s.tselect.toFin
    else if a = 0x7A2#12 then s.triggerAddr s.tselect.toFin
    else 0#32
  else 0#32

/-- `rmw_data`: as `read_data`, but `mip.SEIP` is only the software-writable bit. -/
def rmwData (s : CsrFile) (mtimeIn : BitVec 64) (a : BitVec 12) (readEnable : Bool) : Word :=
  let r := readData s mtimeIn a readEnable
  if a = 0x344#12 then setBit r 9 s.seipSoftwarePending else r

/-- `writes_mcycle`. -/
def writesMcycle (i : CsrIn) : Bool :=
  i.writeEnable && (i.csrAddr == 0xB00#12 || i.csrAddr == 0xB80#12)

/-- `writes_minstret`. -/
def writesMinstret (i : CsrIn) : Bool :=
  i.writeEnable && (i.csrAddr == 0xB02#12 || i.csrAddr == 0xB82#12)

/-- `page_fault_exception`. -/
def pageFaultException (i : CsrIn) : Bool :=
  i.instrPageFaultException || i.loadPageFaultException || i.storePageFaultException

/-- `synchronous_exception`. -/
def synchronousException (i : CsrIn) : Bool :=
  i.ecallException || i.ebreakException || i.illegalInstructionException ||
    i.instructionAddressMisalignedException || i.loadAddressMisalignedException ||
    i.storeAddressMisalignedException || i.instrPageFaultException ||
    i.loadPageFaultException || i.storePageFaultException || i.breakpointTriggerException

/-- `ecall_cause`. -/
def ecallCause (privilegeMode : BitVec 2) : Word :=
  if privilegeMode = privU then 8#32 else if privilegeMode = privS then 9#32 else 0xB#32

/-- `exception_cause`: the MEM-stage page faults are the oldest, then the fetch page fault. -/
def exceptionCause (privilegeMode : BitVec 2) (i : CsrIn) : Word :=
  if i.loadPageFaultException then 0xD#32
  else if i.storePageFaultException then 0xF#32
  else if i.instrPageFaultException then 0xC#32
  else if i.instructionAddressMisalignedException then 0x0#32
  else if i.breakpointTriggerException then 0x3#32
  else if i.illegalInstructionException then 0x2#32
  else if i.ebreakException then 0x3#32
  else if i.loadAddressMisalignedException then 0x4#32
  else if i.storeAddressMisalignedException then 0x6#32
  else ecallCause privilegeMode

/-- `exception_tval`. -/
def exceptionTval (i : CsrIn) : Word :=
  if !pageFaultException i && (i.ecallException || i.ebreakException) then 0#32
  else i.exceptionTvalIn

/-- The free-running part of the block: the two counters and the sampled `mip` bits. -/
def tick (s : CsrFile) (i : CsrIn) : CsrFile :=
  { s with
    cycleCounter :=
      if !s.mcountinhibit.getLsbD 0 && !writesMcycle i then s.cycleCounter + 1 else s.cycleCounter
    instretCounter :=
      if i.instretIncrement && !s.mcountinhibit.getLsbD 2 && !writesMinstret i
      then s.instretCounter + 1 else s.instretCounter
    mip :=
      setBit (setBit (setBit (setBit (setBit (setBit s.mip
        1 s.ssipSoftwarePending) 3 i.machineSoftwareInterrupt) 5 s.stipSoftwarePending)
        7 i.timerInterrupt) 9 (s.seipSoftwarePending || i.supervisorExternalInterrupt))
        11 i.machineExternalInterrupt }

/-- The `mstatus` update of a trap into S-mode: SIE to SPIE, SIE cleared, SPP from the mode. -/
def pushS (mstatus : Word) (privilegeMode : BitVec 2) : Word :=
  setBit (setBit (setBit mstatus 5 (mstatus.getLsbD 1)) 1 false) 8 (privilegeMode == privS)

/-- The `mstatus` update of a trap into M-mode: MIE to MPIE, MIE cleared, MPP from the mode. -/
def pushM (mstatus : Word) (privilegeMode : BitVec 2) : Word :=
  setBit (setBit (setBit (setBit mstatus 7 (mstatus.getLsbD 3)) 3 false)
    11 (privilegeMode.getLsbD 0)) 12 (privilegeMode.getLsbD 1)

/-- Interrupt entry. -/
def interruptEntry (s : CsrFile) (i : CsrIn) : CsrFile :=
  if i.interruptToSupervisor then
    { s with
      sepc := i.interruptPcIn, scause := i.interruptCauseIn
      mstatus := pushS s.mstatus s.privilegeMode, privilegeMode := privS }
  else
    { s with
      mepc := i.interruptPcIn, mcause := i.interruptCauseIn
      mstatus := pushM s.mstatus s.privilegeMode, privilegeMode := privM }

/-- `MRET`. -/
def mret (s : CsrFile) : CsrFile :=
  let mpp := s.mstatus.extractLsb' 11 2
  let m := setBit (setBit (setBit (setBit s.mstatus 3 (s.mstatus.getLsbD 7)) 7 true)
    11 (privU.getLsbD 0)) 12 (privU.getLsbD 1)
  { s with
    -- Only a return below M clears MPRV.
    mstatus := if mpp != privM then setBit m 17 false else m
    privilegeMode := mpp }

/-- `SRET`. -/
def sret (s : CsrFile) : CsrFile :=
  { s with
    mstatus := setBit (setBit (setBit s.mstatus 1 (s.mstatus.getLsbD 5)) 5 true) 8 false
    privilegeMode := if s.mstatus.getLsbD 8 then privS else privU }

/-- Synchronous-exception entry. -/
def exceptionEntry (s : CsrFile) (i : CsrIn) : CsrFile :=
  if i.trapToSupervisor then
    { s with
      sepc := i.exceptionPcIn, scause := exceptionCause s.privilegeMode i
      stval := exceptionTval i
      mstatus := pushS s.mstatus s.privilegeMode, privilegeMode := privS }
  else
    { s with
      mepc := i.exceptionPcIn, mcause := exceptionCause s.privilegeMode i
      mtval := exceptionTval i
      mstatus := pushM s.mstatus s.privilegeMode, privilegeMode := privM }

/-- The `tdata1` fields a write keeps. -/
def tdata1Ctl (d : Word) : BitVec 7 := d.extractLsb' 6 1 ++ 0#1 ++ d.extractLsb' 0 5

/-- Normal CSR writes. A write to one counter half keeps the other as it is: `writes_mcycle` and
`writes_minstret` hold back the increment of that counter in the same cycle. -/
def csrWrite (s : CsrFile) (a : BitVec 12) (d : Word) : CsrFile :=
  if a = 0x300#12 then { s with mstatus := d &&& mstatusWritableMask }
  else if a = 0x100#12 then
    { s with mstatus := (s.mstatus &&& ~~~sstatusMask) ||| (d &&& sstatusMask) }
  else if a = 0x301#12 then { s with misa := (d &&& supportedMisa) ||| 0x40000000#32 }
  else if a = 0x302#12 then { s with medeleg := d }
  else if a = 0x303#12 then { s with mideleg := d }
  else if a = 0x304#12 then { s with mie := d }
  else if a = 0x104#12 then
    { s with mie := (s.mie &&& ~~~sInterruptMask) ||| (d &&& sInterruptMask) }
  else if a = 0x305#12 then { s with mtvec := d.extractLsb' 2 30 ++ 0#1 ++ d.extractLsb' 0 1 }
  else if a = 0x306#12 then { s with mcounteren := d &&& counterenMask }
  else if a = 0x340#12 then { s with mscratch := d }
  else if a = 0x341#12 then { s with mepc := d }
  else if a = 0x342#12 then { s with mcause := d }
  else if a = 0x343#12 then { s with mtval := d }
  else if a = 0x320#12 then { s with mcountinhibit := d &&& mcountinhibitMask }
  else if a = 0x105#12 then { s with stvec := d.extractLsb' 2 30 ++ 0#1 ++ d.extractLsb' 0 1 }
  else if a = 0x106#12 then { s with scounteren := d &&& counterenMask }
  else if a = 0x140#12 then { s with sscratch := d }
  else if a = 0x141#12 then { s with sepc := d }
  else if a = 0x142#12 then { s with scause := d }
  else if a = 0x143#12 then { s with stval := d }
  else if a = 0x180#12 then { s with satp := d }
  -- `sip` reaches the software bit of S-mode only.
  else if a = 0x144#12 then { s with ssipSoftwarePending := d.getLsbD 1 }
  else if a = 0x344#12 then
    { s with
      ssipSoftwarePending := d.getLsbD 1
      stipSoftwarePending := d.getLsbD 5
      seipSoftwarePending := d.getLsbD 9 }
  else if a = 0x7A0#12 then { s with tselect := d.extractLsb' 0 2 }
  -- The registers of the selected trigger.
  else if a = 0x7A1#12 then
    { s with triggerCtl := Function.update s.triggerCtl s.tselect.toFin (tdata1Ctl d) }
  else if a = 0x7A2#12 then
    { s with triggerAddr := Function.update s.triggerAddr s.tselect.toFin d }
  else if a = 0x3A0#12 then { s with pmpcfg0 := d }
  else if a = 0x3B0#12 then { s with pmpaddr0 := d }
  -- The counters, half by half.
  else if a = 0xB00#12 then { s with cycleCounter := s.cycleCounter.extractLsb' 32 32 ++ d }
  else if a = 0xB80#12 then { s with cycleCounter := d ++ s.cycleCounter.extractLsb' 0 32 }
  else if a = 0xB02#12 then { s with instretCounter := s.instretCounter.extractLsb' 32 32 ++ d }
  else if a = 0xB82#12 then { s with instretCounter := d ++ s.instretCounter.extractLsb' 0 32 }
  else s

/-- One clock edge: the free-running part, then the first of interrupt entry, MRET, SRET,
exception entry and CSR write that is requested. -/
def next (s : CsrFile) (i : CsrIn) : CsrFile :=
  let t := tick s i
  if i.interruptTaken then interruptEntry t i
  else if i.mretInstruction then mret t
  else if i.sretInstruction then sret t
  else if synchronousException i then exceptionEntry t i
  else if i.writeEnable && csrValid i.csrAddr then csrWrite t i.csrAddr i.writeData
  else t

end CsrFile

/-! ## Interrupt controller -/

/-- The outputs of `interrupt_controller.v`, its `interrupt_pc` apart: that is `current_pc`. -/
structure InterruptOut where
  interruptPending : Bool
  interruptCause : Word
  interruptToSupervisor : Bool
  deriving DecidableEq

/-- `interrupt_controller.v`. -/
def interruptController (mstatus mie mip mideleg : Word) (privilegeMode : BitVec 2) :
    InterruptOut :=
  let enabled (b : Nat) : Bool := mip.getLsbD b && mie.getLsbD b
  let mEnabled : Bool := privilegeMode != privM || mstatus.getLsbD 3
  let sEnabled : Bool := privilegeMode == privU || (privilegeMode == privS && mstatus.getLsbD 1)
  -- Machine interrupts, then the supervisor interrupts that are not delegated.
  if mEnabled && enabled 11 then ⟨true, 0x8000000B#32, false⟩
  else if mEnabled && enabled 3 then ⟨true, 0x80000003#32, false⟩
  else if mEnabled && enabled 7 then ⟨true, 0x80000007#32, false⟩
  else if mEnabled && enabled 9 && !mideleg.getLsbD 9 then ⟨true, 0x80000009#32, false⟩
  else if mEnabled && enabled 1 && !mideleg.getLsbD 1 then ⟨true, 0x80000001#32, false⟩
  else if mEnabled && enabled 5 && !mideleg.getLsbD 5 then ⟨true, 0x80000005#32, false⟩
  -- Delegated ones are never taken in M-mode.
  else if sEnabled && enabled 9 && mideleg.getLsbD 9 then ⟨true, 0x80000009#32, true⟩
  else if sEnabled && enabled 1 && mideleg.getLsbD 1 then ⟨true, 0x80000001#32, true⟩
  else if sEnabled && enabled 5 && mideleg.getLsbD 5 then ⟨true, 0x80000005#32, true⟩
  else ⟨false, 0#32, false⟩

end Synapse32
