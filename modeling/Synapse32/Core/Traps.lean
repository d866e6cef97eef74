import Synapse32.Core.Execute

/-! # Trap commit

The PC's trap target is chosen in `riscv_cpu.v` and `execution_unit.v`, the CSR update in
`csr_file.v`, by two separate priority chains. This file says when the two agree. -/

namespace Synapse32

/-! ## Trap entry -/

/-- A trap as the privileged architecture sees it: where it goes and what it records. -/
structure Trap where
  toSupervisor : Bool
  epc : Word
  cause : Word
  tval : Option Word
  deriving DecidableEq

/-- **Trap entry.** The record goes into one mode's set, that mode's interrupt enable and the
previous mode are pushed, and the mode changes. An interrupt leaves `tval` as it is. -/
def CsrFile.enter (f : CsrFile) (t : Trap) : CsrFile :=
  if t.toSupervisor then
    { f with
      sepc := t.epc, scause := t.cause, stval := t.tval.getD f.stval
      mstatus := pushS f.mstatus f.privilegeMode, privilegeMode := privS }
  else
    { f with
      mepc := t.epc, mcause := t.cause, mtval := t.tval.getD f.mtval
      mstatus := pushM f.mstatus f.privilegeMode, privilegeMode := privM }

/-- What `csr_file.v` does at a clock edge besides its free-running part. -/
inductive CsrAction
  | trap (t : Trap)
  | mret
  | sret
  | write (addr : BitVec 12) (data : Word)
  | none
  deriving DecidableEq

namespace CsrFile

/-- The action a set of inputs selects: the priority chain of `csr_file.v`. -/
def action (f : CsrFile) (i : CsrIn) : CsrAction :=
  if i.interruptTaken then
    .trap ⟨i.interruptToSupervisor, i.interruptPcIn, i.interruptCauseIn, none⟩
  else if i.mretInstruction then .mret
  else if i.sretInstruction then .sret
  else if synchronousException i then
    .trap ⟨i.trapToSupervisor, i.exceptionPcIn, exceptionCause f.privilegeMode i,
      some (exceptionTval i)⟩
  else if i.writeEnable && csrValid i.csrAddr then .write i.csrAddr i.writeData
  else .none

/-- What selects each action, by priority. -/
inductive Selects (f : CsrFile) (i : CsrIn) : CsrAction → Prop
  | interrupt (hint : i.interruptTaken = true) :
      Selects f i (.trap ⟨i.interruptToSupervisor, i.interruptPcIn, i.interruptCauseIn, none⟩)
  | mret (hint : i.interruptTaken = false) (hmret : i.mretInstruction = true) : Selects f i .mret
  | sret (hint : i.interruptTaken = false) (hsret : i.sretInstruction = true) : Selects f i .sret
  | exception (hint : i.interruptTaken = false) (hsync : synchronousException i = true) :
      Selects f i (.trap ⟨i.trapToSupervisor, i.exceptionPcIn, exceptionCause f.privilegeMode i,
        some (exceptionTval i)⟩)
  | write (hint : i.interruptTaken = false) (hsync : synchronousException i = false)
      (hw : i.writeEnable = true) : Selects f i (.write i.csrAddr i.writeData)
  | none : Selects f i .none

/-- **Inversion.** An action comes from the inputs that select it. -/
theorem action_selects (f : CsrFile) (i : CsrIn) : Selects f i (f.action i) := by
  unfold action
  split
  next hint => exact .interrupt hint
  next hint =>
    have hint := Bool.eq_false_of_not_eq_true hint
    split
    next hmret => exact .mret hint hmret
    next =>
      split
      next hsret => exact .sret hint hsret
      next =>
        split
        next hsync => exact .exception hint hsync
        next hsync =>
          split
          next hw =>
            exact .write hint (Bool.eq_false_of_not_eq_true hsync) (Bool.and_eq_true_iff.mp hw).1
          next => exact .none

/-- The effect of an action. -/
def perform (f : CsrFile) : CsrAction → CsrFile
  | .trap t => f.enter t
  | .mret => f.mret
  | .sret => f.sret
  | .write a d => f.csrWrite a d
  | .none => f

/-- **The clock edge performs the selected action** on top of the free-running part. -/
theorem next_eq_perform (f : CsrFile) (i : CsrIn) :
    f.next i = (f.tick i).perform (f.action i) := by
  unfold next action
  dsimp only
  split
  · unfold interruptEntry perform enter
    dsimp only
    split <;> rfl
  split
  · rfl
  split
  · rfl
  split
  · unfold exceptionEntry perform enter
    dsimp only
    split <;> rfl
  split <;> rfl

end CsrFile

/-! ## The trap a cycle redirects to -/

/-- The cause of an exception of the execution unit. -/
def ExOut.cause (privilegeMode : BitVec 2) (o : ExOut) : Word :=
  if o.instructionAddressMisalignedException then 0x0#32
  else if o.breakpointTriggerException then 0x3#32
  else if o.illegalInstructionException then 0x2#32
  else if o.ebreakException then 0x3#32
  else if o.loadAddressMisalignedException then 0x4#32
  else if o.storeAddressMisalignedException then 0x6#32
  else CsrFile.ecallCause privilegeMode

/-- The `tval` of an exception of the execution unit: `ecall` and `ebreak` have none. -/
def ExOut.tval (o : ExOut) : Word :=
  if o.ecallException || o.ebreakException then 0#32 else o.exceptionTval

namespace RiscvCpu

variable (s : RiscvCpu) (i : CpuIn)

/-- A redirect to a trap target: the trap it is for and the target. -/
structure Redirect where
  trap : Trap
  target : Word
  deriving DecidableEq

/-- The trap of an access in MEM that page-faults. -/
def memFaultTrap : Trap where
  toSupervisor := memStageTrapToSupervisor s i
  epc := s.exMem.pc
  cause := if memStageLoadPageFault s i then 0xD#32 else 0xF#32
  tval := some s.exMem.memAddr

/-- The trap of an instruction whose own fetch page-faulted. -/
def fetchFaultTrap : Trap where
  toSupervisor := instrStageTrapToSupervisor s
  epc := s.idEx.pc
  cause := 0xC#32
  tval := some s.idEx.pc

/-- The trap of the pending interrupt. -/
def interruptTrap : Trap where
  toSupervisor := (interrupt s).interruptToSupervisor
  epc := interruptPc s
  cause := (interrupt s).interruptCause
  tval := none

/-- The trap of an exception in EX. -/
def exceptionTrap : Trap where
  toSupervisor := (exOut s i).trapToSupervisor
  epc := s.idEx.pc
  cause := (exOut s i).cause s.csrFile.privilegeMode
  tval := some (exOut s i).tval

/-- The vector an exception goes to. -/
def exceptionVector (toSupervisor : Bool) : Word :=
  if toSupervisor then stvecBase s else mtvecBase s

/-- **The trap this cycle redirects to**, the oldest first: a page fault in MEM, then a fetch page
fault in EX, then an interrupt, then an exception in EX. -/
def redirect? : Option Redirect :=
  if memStagePageFaultTaken s i then
    some ⟨memFaultTrap s i, exceptionVector s (memFaultTrap s i).toSupervisor⟩
  else if instrStagePageFaultTaken s i then
    some ⟨fetchFaultTrap s, exceptionVector s (fetchFaultTrap s).toSupervisor⟩
  else if interruptTakenQualified s i then some ⟨interruptTrap s, interruptVector s⟩
  else if synchronousExceptionTaken s i then
    some ⟨exceptionTrap s i, exceptionVector s (exceptionTrap s i).toSupervisor⟩
  else none

/-- **The commit agrees with the redirect**: the PC gets the target, and the CSR file performs
the entry into that trap and nothing else on top of its free-running part. -/
structure Commits (r : Redirect) : Prop where
  pc : (next s i).pc = r.target
  action : s.csrFile.action (csrIn s i) = .trap r.trap
  csrFile : (next s i).csrFile = (s.csrFile.tick (csrIn s i)).enter r.trap

/-- A legal MRET or SRET is in EX. -/
def xretInEx : Bool :=
  ExecutionUnit.legalMret (exInWith s i false) || ExecutionUnit.legalSret (exInWith s i false)

/-- An older page fault is taken over an MRET or SRET that no execute trigger stops. -/
def pageFaultOverXret : Bool :=
  (memStagePageFaultTaken s i || instrStagePageFaultTaken s i) &&
    (xretInEx s i && !executeTriggerHit s i)

/-! ## EX in a page-fault cycle -/

variable {s i}

/-- A page fault in MEM ends the wait of MEM. -/
theorem memWait_of_memFault (h : memStagePageFaultTaken s i = true) : memWait s i = false := by
  simp [memWait, h]

/-- Neither xRET is one of the two fences, so nothing holds it in EX but MEM. -/
theorem fenceDrainStall_of_xret (h : xretInEx s i = true) : fenceDrainStall s i = false := by
  have hid : s.idEx.dec.instrId = .mret ∨ s.idEx.dec.instrId = .sret := by
    simp only [xretInEx, ExecutionUnit.legalMret, ExecutionUnit.legalSret, Bool.or_eq_true,
      Bool.and_eq_true, beq_iff_eq] at h
    exact h.imp (fun h => h.1.2) (fun h => h.1.2)
  rcases hid with hid | hid <;> simp [fenceDrainStall, hid]

/-- A fetch fault is taken from an active EX only. -/
theorem exStageActive_of_fetchFault (h : instrStagePageFaultTaken s i = true) :
    exStageActive s i = true := by
  simp only [instrStagePageFaultTaken, Bool.and_eq_true] at h
  exact h.1.2

/-- In a page-fault cycle only a fence is held in EX. -/
theorem exStageActive_of_pageFault
    (hpf : (memStagePageFaultTaken s i || instrStagePageFaultTaken s i) = true)
    (hfence : fenceDrainStall s i = false) : exStageActive s i = true := by
  rcases Bool.or_eq_true _ _ ▸ hpf with hm | hf
  · simp [exStageActive, memWait_of_memFault hm, hfence]
  · exact exStageActive_of_fetchFault hf

/-- A page fault hides the interrupt from EX. -/
theorem exIn_of_pageFault
    (hpf : (memStagePageFaultTaken s i || instrStagePageFaultTaken s i) = true) :
    exIn s i = exInWith s i false := by
  have hnot : (!memStagePageFaultTaken s i && !instrStagePageFaultTaken s i) = false := by
    rw [← Bool.not_or, hpf]; rfl
  unfold exIn
  rw [Bool.and_assoc, hnot, Bool.and_false]

/-- **The xRET requests of a page-fault cycle**: nothing stops a legal MRET or SRET in EX from
raising its request, except an execute trigger on it. -/
theorem xret_of_pageFault
    (hpf : (memStagePageFaultTaken s i || instrStagePageFaultTaken s i) = true) :
    ((exOut s i).mretInstruction || (exOut s i).sretInstruction) = pageFaultOverXret s i := by
  have hin := exIn_of_pageFault hpf
  have hreach : ExecutionUnit.reachesOpcode (exIn s i) =
      (exStageActive s i && !executeTriggerHit s i) := by
    rw [hin]
    simp [ExecutionUnit.reachesOpcode, exInWith, executeTriggerHit]
  rw [exOut, executionUnit_mret, executionUnit_sret, ← Bool.and_or_distrib_left, hreach, hin,
    pageFaultOverXret, hpf, Bool.true_and]
  change (_ && _ && xretInEx s i) = (xretInEx s i && !executeTriggerHit s i)
  cases hx : xretInEx s i
  · simp
  · simp [exStageActive_of_pageFault hpf (fenceDrainStall_of_xret hx)]

/-- In an interrupt cycle EX is active. -/
theorem exStageActive_of_interrupt (h : interruptTakenQualified s i = true) :
    exStageActive s i = true := by
  by_contra ha
  have hheld : (exIn s i).stageEnable = false := by simpa [exIn, exInWith] using ha
  obtain ⟨v, a, m, t, hout⟩ := executionUnit_held hheld
  have hq : (exOut s i).interruptTaken = false := by rw [exOut, hout]
  simp [interruptTakenQualified, hq] at h

/-- An interrupt is taken when the controller reports one only. -/
theorem interruptPending_of_interrupt (h : interruptTakenQualified s i = true) :
    (exIn s i).interruptPending = true := by
  by_contra hp
  have hq : (exOut s i).interruptTaken = false :=
    (executionUnit_answer (Bool.eq_false_of_not_eq_true hp)).interruptTaken
  simp [interruptTakenQualified, hq] at h

/-- An interrupt that is taken is what EX saw. -/
theorem exOut_of_interrupt (h : interruptTakenQualified s i = true) :
    exOut s i =
      { ExecutionUnit.redirect {} (interruptVector s) with
        trapToSupervisor := (interrupt s).interruptToSupervisor, interruptTaken := true } := by
  exact executionUnit_interrupt (interruptPending_of_interrupt h) (exStageActive_of_interrupt h)

/-- An exception in EX leaves no room for an interrupt in the same cycle. -/
theorem exIn_of_synchronous (h : synchronousExceptionTaken s i = true) :
    (exIn s i).interruptPending = false := by
  by_contra hp
  have hp : (exIn s i).interruptPending = true := by simpa using hp
  change (exOut s i).synchronous = true at h
  cases ha : (exIn s i).stageEnable
  · obtain ⟨v, a, m, t, hout⟩ := executionUnit_held ha
    rw [exOut, hout] at h
    exact Bool.false_ne_true h
  · rw [exOut, executionUnit_interrupt hp ha] at h
    exact Bool.false_ne_true h

/-! ## The commit -/

/-- The CSR file's clock edge, as the action its inputs select. -/
theorem next_csrFile (s : RiscvCpu) (i : CpuIn) :
    (next s i).csrFile =
      (s.csrFile.tick (csrIn s i)).perform (s.csrFile.action (csrIn s i)) :=
  CsrFile.next_eq_perform _ _

/-- A taken page fault is a synchronous exception for the CSR file. -/
theorem synchronousException_of_pageFault
    (hpf : (memStagePageFaultTaken s i || instrStagePageFaultTaken s i) = true) :
    CsrFile.synchronousException (csrIn s i) = true := by
  rcases Bool.or_eq_true _ _ ▸ hpf with h | h
  · rcases Bool.or_eq_true _ _ ▸ h with h | h <;>
      simp [CsrFile.synchronousException, csrIn, h]
  · simp [CsrFile.synchronousException, csrIn, h]

/-- **The action of a page-fault cycle without an xRET request** is exception entry. -/
theorem action_of_pageFault
    (hpf : (memStagePageFaultTaken s i || instrStagePageFaultTaken s i) = true)
    (hx : pageFaultOverXret s i = false) :
    s.csrFile.action (csrIn s i) =
      .trap ⟨csrTrapToSupervisor s i, csrExceptionPc s i,
        CsrFile.exceptionCause s.csrFile.privilegeMode (csrIn s i),
        some (CsrFile.exceptionTval (csrIn s i))⟩ := by
  have hxret := xret_of_pageFault hpf
  rw [hx, Bool.or_eq_false_iff] at hxret
  have hint : interruptTakenQualified s i = false := by
    rcases Bool.or_eq_true _ _ ▸ hpf with h | h <;> simp [interruptTakenQualified, h]
  have hsync := synchronousException_of_pageFault hpf
  unfold CsrFile.action
  rw [hsync]
  simp [csrIn, hint, hxret.1, hxret.2]

/-- The trap that exception entry takes in a MEM page-fault cycle. -/
theorem trap_of_memFault (h : memStagePageFaultTaken s i = true) :
    (⟨csrTrapToSupervisor s i, csrExceptionPc s i,
      CsrFile.exceptionCause s.csrFile.privilegeMode (csrIn s i),
      some (CsrFile.exceptionTval (csrIn s i))⟩ : Trap) = memFaultTrap s i := by
  have hpf : CsrFile.pageFaultException (csrIn s i) = true := by
    rcases Bool.or_eq_true _ _ ▸ h with h | h <;> simp [CsrFile.pageFaultException, csrIn, h]
  have hcause : CsrFile.exceptionCause s.csrFile.privilegeMode (csrIn s i) =
      if memStageLoadPageFault s i then 0xD#32 else 0xF#32 := by
    cases hl : memStageLoadPageFault s i
    · have hst : memStageStorePageFault s i = true := by
        simpa [memStagePageFaultTaken, hl] using h
      simp [CsrFile.exceptionCause, csrIn, hl, hst]
    · simp [CsrFile.exceptionCause, csrIn, hl]
  have htval : CsrFile.exceptionTval (csrIn s i) = s.exMem.memAddr := by
    unfold CsrFile.exceptionTval
    rw [hpf]
    simp [csrIn, csrExceptionTval, h]
  rw [hcause, htval]
  simp [memFaultTrap, csrTrapToSupervisor, csrExceptionPc, h]

/-- The trap that exception entry takes in a fetch page-fault cycle. -/
theorem trap_of_fetchFault (hm : memStagePageFaultTaken s i = false)
    (h : instrStagePageFaultTaken s i = true) :
    (⟨csrTrapToSupervisor s i, csrExceptionPc s i,
      CsrFile.exceptionCause s.csrFile.privilegeMode (csrIn s i),
      some (CsrFile.exceptionTval (csrIn s i))⟩ : Trap) = fetchFaultTrap s := by
  have hls : memStageLoadPageFault s i = false ∧ memStageStorePageFault s i = false := by
    simpa [memStagePageFaultTaken] using hm
  simp [fetchFaultTrap, csrTrapToSupervisor, csrExceptionPc, hm, h, CsrFile.exceptionCause,
    CsrFile.exceptionTval, CsrFile.pageFaultException, csrIn, csrExceptionTval, hls.1, hls.2]

/-- The PC after a page-fault cycle. -/
theorem next_pc_of_pageFault
    (hpf : (memStagePageFaultTaken s i || instrStagePageFaultTaken s i) = true) :
    (next s i).pc =
      if memStagePageFaultTaken s i then memStageJumpAddr s i else instrStageJumpAddr s := by
  have hj : jSignal s i = true := by simp [jSignal, hpf]
  change nextPc s i = _
  rw [nextPc, if_pos hj, jump]
  cases hm : memStagePageFaultTaken s i
  · have hf : instrStagePageFaultTaken s i = true := by simpa [hm] using hpf
    simp [hf]
  · rfl

/-- **A page fault over an xRET does not commit**: the CSR file performs the xRET. -/
theorem not_commits_of_pageFaultOverXret (h : pageFaultOverXret s i = true) (r : Redirect) :
    ¬ Commits s i r := by
  intro hc
  have hpf : (memStagePageFaultTaken s i || instrStagePageFaultTaken s i) = true := by
    simp only [pageFaultOverXret, Bool.and_eq_true] at h
    exact h.1
  have hxret := xret_of_pageFault hpf
  rw [h] at hxret
  have hint : interruptTakenQualified s i = false := by
    rcases Bool.or_eq_true _ _ ▸ hpf with h | h <;> simp [interruptTakenQualified, h]
  have haction := hc.action
  unfold CsrFile.action at haction
  cases hm : (exOut s i).mretInstruction
  · have hs : (exOut s i).sretInstruction = true := by simpa [hm] using hxret
    simp [csrIn, hint, hm, hs] at haction
  · simp [csrIn, hint, hm] at haction

/-- Without an xRET under it, a page fault commits. -/
theorem commits_of_pageFault (hx : pageFaultOverXret s i = false) (r : Redirect)
    (hpf : (memStagePageFaultTaken s i || instrStagePageFaultTaken s i) = true)
    (hr : redirect? s i = some r) : Commits s i r := by
  have haction := action_of_pageFault hpf hx
  have hpc := next_pc_of_pageFault hpf
  cases hm : memStagePageFaultTaken s i
  · have hf : instrStagePageFaultTaken s i = true := by simpa [hm] using hpf
    obtain rfl : (⟨fetchFaultTrap s, exceptionVector s (fetchFaultTrap s).toSupervisor⟩ :
        Redirect) = r := by simpa [redirect?, hm, hf] using hr
    rw [trap_of_fetchFault hm hf] at haction
    refine ⟨?_, haction, ?_⟩
    · rw [hpc, hm]; rfl
    · rw [next_csrFile, haction]; rfl
  · obtain rfl : (⟨memFaultTrap s i, exceptionVector s (memFaultTrap s i).toSupervisor⟩ :
        Redirect) = r := by simpa [redirect?, hm] using hr
    rw [trap_of_memFault hm] at haction
    refine ⟨?_, haction, ?_⟩
    · rw [hpc, hm]; rfl
    · rw [next_csrFile, haction]; rfl

/-- An interrupt commits. -/
theorem commits_of_interrupt (h : interruptTakenQualified s i = true) :
    Commits s i ⟨interruptTrap s, interruptVector s⟩ := by
  have hout := exOut_of_interrupt h
  have hnm : memStagePageFaultTaken s i = false ∧ instrStagePageFaultTaken s i = false := by
    simp only [interruptTakenQualified, Bool.and_eq_true, Bool.not_eq_true'] at h
    exact ⟨h.1.2, h.2⟩
  have haction : s.csrFile.action (csrIn s i) = .trap (interruptTrap s) := by
    unfold CsrFile.action
    simp [csrIn, h, interruptTrap]
  refine ⟨?_, haction, ?_⟩
  · change nextPc s i = _
    have hj : jSignal s i = true := by simp [jSignal, hout, ExecutionUnit.redirect]
    rw [nextPc, if_pos hj, jump, hnm.1, hnm.2, hout]
    rfl
  · rw [next_csrFile, haction]; rfl

/-- An exception in EX commits. -/
theorem commits_of_exception (hm : memStagePageFaultTaken s i = false)
    (hf : instrStagePageFaultTaken s i = false) (h : synchronousExceptionTaken s i = true) :
    Commits s i ⟨exceptionTrap s i, exceptionVector s (exceptionTrap s i).toSupervisor⟩ := by
  have hans := executionUnit_answer (exIn_of_synchronous h)
  have hsync : (exOut s i).synchronous = true := h
  have hint : interruptTakenQualified s i = false := by simp [interruptTakenQualified, h]
  have hxret := hans.system hsync
  have hmret : (exOut s i).mretInstruction = false := congrArg Prod.fst hxret
  have hsret : (exOut s i).sretInstruction = false := congrArg (fun p => p.2.1) hxret
  have hls : memStageLoadPageFault s i = false ∧ memStageStorePageFault s i = false := by
    simpa [memStagePageFaultTaken] using hm
  have hcsr : CsrFile.synchronousException (csrIn s i) = true := by
    simp only [synchronousExceptionTaken, Bool.or_eq_true] at h
    simp only [CsrFile.synchronousException, csrIn, Bool.or_eq_true]
    tauto
  -- No request of higher priority is made in the same cycle.
  have haction : s.csrFile.action (csrIn s i) = .trap (exceptionTrap s i) := by
    unfold CsrFile.action
    rw [hcsr]
    simp [csrIn, hint, hmret, hsret, exceptionTrap, csrTrapToSupervisor, csrExceptionPc, hm, hf,
      CsrFile.exceptionCause, CsrFile.exceptionTval, CsrFile.pageFaultException, hls.1, hls.2,
      ExOut.cause, ExOut.tval, csrExceptionTval]
  refine ⟨?_, haction, ?_⟩
  · change nextPc s i = _
    have hj : jSignal s i = true := by
      simp [jSignal, show (exOut s i).jumpSignal = true from hans.jump hsync]
    rw [nextPc, if_pos hj, jump, hm, hf]
    exact hans.vector hsync
  · rw [next_csrFile, haction]; rfl

/-- **The commit agrees with the redirect exactly when** no page fault is taken over a legal xRET
in EX. -/
theorem commits_iff {r : Redirect} (hr : redirect? s i = some r) :
    Commits s i r ↔ pageFaultOverXret s i = false := by
  constructor
  · intro hc
    by_contra hx
    exact not_commits_of_pageFaultOverXret (by simpa using hx) r hc
  · intro hx
    cases hm : memStagePageFaultTaken s i
    · cases hf : instrStagePageFaultTaken s i
      · cases hi : interruptTakenQualified s i
        · cases he : synchronousExceptionTaken s i
          · simp [redirect?, hm, hf, hi, he] at hr
          · obtain rfl : _ = r := by simpa [redirect?, hm, hf, hi, he] using hr
            exact commits_of_exception hm hf he
        · obtain rfl : _ = r := by simpa [redirect?, hm, hf, hi] using hr
          exact commits_of_interrupt hi
      · exact commits_of_pageFault hx r (by simp [hf]) hr
    · exact commits_of_pageFault hx r (by simp [hm]) hr

/-! ## Runs -/

/-- A fetch that answers at once, with the data side idle and no interrupt line up. -/
def quietFetch (instr : Word) : CpuIn where
  instrIn := instr
  readDataIn := 0#32
  loadPageFaultIn := false
  storePageFaultIn := false
  instrPageFaultIn := false
  instrGntIn := true
  instrRvalidIn := true
  dataRvalidIn := false
  storeBufferEmptyIn := true
  dataCacheCleanIn := true
  timerInterrupt := false
  machineSoftwareInterrupt := false
  machineExternalInterrupt := false
  supervisorExternalInterrupt := false
  mtimeIn := 0#64

/-- **Trap commit over runs.** In every cycle of every run from reset that redirects to a trap
target, the CSR file performs exactly that trap if and only if the trap is not a page fault taken
over a legal MRET or SRET in EX. -/
theorem run_commits_iff (ins : ℕ → CpuIn) (n : ℕ) (r : Redirect)
    (hr : redirect? (run ins n) (ins n) = some r) :
    Commits (run ins n) (ins n) r ↔ pageFaultOverXret (run ins n) (ins n) = false :=
  commits_iff hr

/-- A run of all-zero words: the first one traps as an illegal instruction in cycle 2, and the
trap commits. -/
theorem run_commits_illegalWord :
    Commits (run (fun _ => quietFetch 0#32) 2) (quietFetch 0#32)
      ⟨⟨false, 0x80000000#32, 0x2#32, some 0#32⟩, 0#32⟩ :=
  (run_commits_iff (fun _ => quietFetch 0#32) 2 _ (by decide +kernel)).mpr (by decide +kernel)

/-- The words fetched while `mstatus.MPRV` and `satp.MODE` are set and a load is followed by
`last`. The two words behind each CSR write come twice, since the write refetches them. -/
def mprvLoadWords (last : Word) : List Word :=
  [0x000200B7#32, 0x30009073#32,                -- lui x1, 0x20; csrw mstatus, x1
    0x80000137#32, 0x18011073#32,
    0x80000137#32, 0x18011073#32,               -- lui x2, 0x80000; csrw satp, x2
    0x00002183#32, last,
    0x00002183#32, last]                        -- lw x3, 0(x0); last

/-- The inputs of that run: the load page-faults in cycle 11, when it is in MEM. -/
def mprvLoadFault (last : Word) (n : ℕ) : CpuIn :=
  { quietFetch ((mprvLoadWords last).getD n nopInstr) with loadPageFaultIn := n == 11 }

/-- **A load page fault over an MRET does not commit.** The PC goes to `mtvec` for the load, with
cause 13, but the CSR file returns to U-mode and records nothing. -/
theorem mret_over_loadFault :
    dataMmuEnable (run (mprvLoadFault 0x30200073#32) 11) = true ∧
      redirect? (run (mprvLoadFault 0x30200073#32) 11) (mprvLoadFault 0x30200073#32 11) =
        some ⟨⟨false, 0x80000010#32, 0xD#32, some 0#32⟩, 0#32⟩ ∧
      (run (mprvLoadFault 0x30200073#32) 12).pc = 0#32 ∧
      (run (mprvLoadFault 0x30200073#32) 12).csrFile.privilegeMode = privU ∧
      (run (mprvLoadFault 0x30200073#32) 12).csrFile.mcause = 0#32 ∧
      ¬ Commits (run (mprvLoadFault 0x30200073#32) 11) (mprvLoadFault 0x30200073#32 11)
        ⟨⟨false, 0x80000010#32, 0xD#32, some 0#32⟩, 0#32⟩ :=
  ⟨by decide +kernel, by decide +kernel, by decide +kernel, by decide +kernel, by decide +kernel,
    not_commits_of_pageFaultOverXret (by decide +kernel) _⟩

end RiscvCpu

end Synapse32
