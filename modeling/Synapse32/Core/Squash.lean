import Synapse32.Core.Privilege

/-! # Squashed instructions

A two-run property: the instruction in EX, squashed in this cycle, is compared with a NOP in its
place. -/

namespace Synapse32

/-- The CSR file with its two free-running counters blanked. -/
def CsrFile.dropCounters (f : CsrFile) : CsrFile :=
  { f with cycleCounter := 0#64, instretCounter := 0#64 }

/-- Trap entry does not look at the counters, so two edges that sample the same interrupt lines
enter alike. -/
theorem CsrFile.dropCounters_enter_tick (f : CsrFile) (t : Trap) {i j : CsrIn}
    (ht : i.timerInterrupt = j.timerInterrupt)
    (hs : i.machineSoftwareInterrupt = j.machineSoftwareInterrupt)
    (hm : i.machineExternalInterrupt = j.machineExternalInterrupt)
    (he : i.supervisorExternalInterrupt = j.supervisorExternalInterrupt) :
    ((f.tick i).enter t).dropCounters = ((f.tick j).enter t).dropCounters := by
  unfold enter
  split <;> simp [dropCounters, tick, ht, hs, hm, he]

/-- The counters are no part of `mstatus`. -/
@[simp] theorem CsrFile.dropCounters_mstatus (f : CsrFile) :
    f.dropCounters.mstatus = f.mstatus := rfl

/-- The counters are no part of the mode. -/
@[simp] theorem CsrFile.dropCounters_privilegeMode (f : CsrFile) :
    f.dropCounters.privilegeMode = f.privilegeMode := rfl

/-- The architected mode between the two others. -/
theorem CsrFile.privS_of_architected {m : BitVec 2} (h : architected m = true) (hu : m ≠ privU)
    (hm : m ≠ privM) : m = privS := by
  revert h hu hm
  revert m
  decide

/-- In M-mode an MRET leaves U-mode in MPP, where a trap saves M-mode. -/
theorem CsrFile.mret_ne_enter (f : CsrFile) {g : CsrFile} {t : Trap}
    (ht : t.toSupervisor = false) (hg : g.privilegeMode = privM) :
    f.mret.dropCounters ≠ (g.enter t).dropCounters := by
  intro heq
  have hstatus := congrArg CsrFile.mstatus heq
  rw [dropCounters_mstatus, dropCounters_mstatus, enter_mstatus, ht, if_neg Bool.false_ne_true,
    hg] at hstatus
  have hmpp := congrArg mpp hstatus
  rw [mpp_mret, mpp_pushM] at hmpp
  exact absurd hmpp (by decide)

/-- An SRET does not lead to M-mode, and clears SPP, where a trap of S-mode saves its mode. -/
theorem CsrFile.sret_ne_enter (f : CsrFile) {g : CsrFile} {t : Trap}
    (ht : t.toSupervisor = true → g.privilegeMode = privS) :
    f.sret.dropCounters ≠ (g.enter t).dropCounters := by
  intro heq
  have hmode := congrArg CsrFile.privilegeMode heq
  have hstatus := congrArg CsrFile.mstatus heq
  rw [dropCounters_privilegeMode, dropCounters_privilegeMode, enter_privilegeMode] at hmode
  rw [dropCounters_mstatus, dropCounters_mstatus, enter_mstatus] at hstatus
  cases hsup : t.toSupervisor
  · rw [hsup, if_neg Bool.false_ne_true] at hmode
    change (if f.mstatus.getLsbD 8 then privS else privU) = privM at hmode
    split at hmode <;> exact absurd hmode (by decide)
  · rw [hsup, if_pos rfl, ht hsup] at hstatus
    have hspp : f.sret.mstatus.getLsbD 8 = (pushS g.mstatus privS).getLsbD 8 := by rw [hstatus]
    rw [getLsbD_sret, getLsbD_pushS, if_pos rfl, if_pos rfl] at hspp
    exact absurd hspp (by decide)

namespace RiscvCpu

/-- The core with a NOP in EX: the same PC, valid flag and fetch-fault flag. -/
def withNop (s : RiscvCpu) : RiscvCpu :=
  { s with
    idEx := { s.idEx with
      dec := decoder nopInstr, instr := nopInstr, rs1Value := 0#32, rs2Value := 0#32 } }

/-- The core without its two free-running counters. -/
def dropCounters (s : RiscvCpu) : RiscvCpu := { s with csrFile := s.csrFile.dropCounters }

/-- The counters are no part of the sleep flag. -/
@[simp] theorem dropCounters_wfiActive (s : RiscvCpu) :
    (dropCounters s).wfiActive = s.wfiActive := rfl

variable (s : RiscvCpu) (i : CpuIn)

/-- A page fault is taken, of the access in MEM or of the fetch of the instruction in EX. -/
def pageFaultTaken : Bool := memStagePageFaultTaken s i || instrStagePageFaultTaken s i

/-- **The instruction in EX is squashed** in this cycle. -/
def squashed : Bool := pageFaultTaken s i || interruptTakenQualified s i

/-- A page fault is taken over a WFI that would put the core to sleep. -/
def pageFaultOverWfi : Bool :=
  pageFaultTaken s i && (ExecutionUnit.legalWfi (exInWith s i false) && !executeTriggerHit s i) &&
    !s.wfiActive && !wfiResumePending s

variable {s i}

/-! ## A NOP in EX -/

/-- A NOP in EX waits for no drain. -/
theorem fenceDrainStall_withNop : fenceDrainStall (withNop s) i = false := by
  have hid : (withNop s).idEx.dec.instrId = .addi := rfl
  simp [fenceDrainStall, hid]

/-- A NOP in EX is held by MEM alone. -/
theorem exStageActive_withNop : exStageActive (withNop s) i = !memWait s i := by
  rw [exStageActive, fenceDrainStall_withNop, Bool.not_false, Bool.and_true]
  rfl

/-- Where EX is active, a NOP is active too. -/
theorem exStageActive_withNop_of_active (h : exStageActive s i = true) :
    exStageActive (withNop s) i = true := by
  rw [exStageActive_withNop]
  simp only [exStageActive, Bool.and_eq_true] at h
  exact h.1

/-- Where EX is active, the fetch page fault does not depend on the word in EX. -/
theorem instrStagePageFaultTaken_withNop (h : exStageActive s i = true) :
    instrStagePageFaultTaken (withNop s) i = instrStagePageFaultTaken s i := by
  have hn := exStageActive_withNop_of_active h
  have htrig : executeTriggerHit (withNop s) i = executeTriggerHit s i := by
    unfold executeTriggerHit ExecutionUnit.executeTriggerHit
    change (exStageActive (withNop s) i && _ && _) = (exStageActive s i && _ && _)
    rw [hn, h]
    rfl
  unfold instrStagePageFaultTaken
  rw [hn, h, htrig]
  rfl

/-- A page fault squashes a NOP just as well. -/
theorem pageFaultTaken_withNop (h : pageFaultTaken s i = true) :
    pageFaultTaken (withNop s) i = true := by
  unfold pageFaultTaken at h ⊢
  rcases Bool.or_eq_true _ _ ▸ h with hm | hf
  · exact Bool.or_eq_true _ _ ▸ Or.inl hm
  · rw [instrStagePageFaultTaken_withNop (exStageActive_of_fetchFault hf), hf, Bool.or_true]

/-- A NOP is no system instruction. -/
theorem system_withNop :
    ExecutionUnit.legalMret (exInWith (withNop s) i false) = false ∧
      ExecutionUnit.legalSret (exInWith (withNop s) i false) = false ∧
      ExecutionUnit.legalWfi (exInWith (withNop s) i false) = false := ⟨rfl, rfl, rfl⟩

/-- A NOP in EX is no return. -/
theorem pageFaultOverXret_withNop : pageFaultOverXret (withNop s) i = false := by
  simp [pageFaultOverXret, xretInEx, system_withNop]

/-- An interrupt squashes a NOP with the same output of EX. -/
theorem exOut_withNop_of_interrupt (h : interruptTakenQualified s i = true) :
    exOut (withNop s) i = exOut s i := by
  have ha := exStageActive_of_interrupt h
  have hf := instrStagePageFaultTaken_withNop ha
  rw [exOut_of_interrupt h]
  refine executionUnit_interrupt ?_ (exStageActive_withNop_of_active ha)
  have hp := interruptPending_of_interrupt h
  change ((interrupt s).interruptPending && !memStagePageFaultTaken s i &&
    !instrStagePageFaultTaken (withNop s) i) = true
  rw [hf]
  exact hp

/-- An interrupt that squashes an instruction is taken over a NOP too. -/
theorem interruptTakenQualified_withNop (h : interruptTakenQualified s i = true) :
    interruptTakenQualified (withNop s) i = true := by
  have hout := exOut_withNop_of_interrupt h
  have hf := instrStagePageFaultTaken_withNop (exStageActive_of_interrupt h)
  unfold interruptTakenQualified synchronousExceptionTaken at h ⊢
  rw [hout, hf]
  exact h

/-! ## The next state -/

/-- **A squash flushes everything behind MEM**, whatever is in EX: only the PC, the CSR file and
the sleep flag still look at it. -/
theorem next_of_squashed (h : squashed s i = true) :
    pipelineFlush s i = true ∧ exMemFlush s i = true ∧ jSignal s i = true := by
  unfold squashed at h
  rcases Bool.or_eq_true _ _ ▸ h with hpf | hint
  · unfold pageFaultTaken at hpf
    rcases Bool.or_eq_true _ _ ▸ hpf with h | h <;> simp [pipelineFlush, exMemFlush, jSignal, h]
  · have hout := exOut_of_interrupt hint
    simp [pipelineFlush, exMemFlush, jSignal, hint, hout, ExecutionUnit.redirect]

/-- The trap of a squash does not depend on the word in EX. -/
theorem redirect?_withNop (h : squashed s i = true) :
    redirect? (withNop s) i = redirect? s i := by
  have hmem : memStagePageFaultTaken (withNop s) i = memStagePageFaultTaken s i := rfl
  unfold redirect?
  rw [hmem]
  cases hm : memStagePageFaultTaken s i
  · cases hf : instrStagePageFaultTaken s i
    · have hint : interruptTakenQualified s i = true := by
        simpa [squashed, pageFaultTaken, hm, hf] using h
      have hf' : instrStagePageFaultTaken (withNop s) i = false := by
        rw [instrStagePageFaultTaken_withNop (exStageActive_of_interrupt hint), hf]
      rw [hf', hint, interruptTakenQualified_withNop hint]
      rfl
    · have hf' : instrStagePageFaultTaken (withNop s) i = true := by
        rw [instrStagePageFaultTaken_withNop (exStageActive_of_fetchFault hf), hf]
      rw [hf']
      rfl
  · rfl

/-- A squash redirects to some trap. -/
theorem exists_redirect_of_squashed (h : squashed s i = true) :
    ∃ r, redirect? s i = some r := by
  unfold redirect?
  cases hm : memStagePageFaultTaken s i
  · cases hf : instrStagePageFaultTaken s i
    · have hint : interruptTakenQualified s i = true := by
        simpa [squashed, pageFaultTaken, hm, hf] using h
      exact ⟨_, by rw [hint]; rfl⟩
    · exact ⟨_, rfl⟩
  · exact ⟨_, rfl⟩

/-- A NOP in place of a squashed instruction is squashed as well. -/
theorem squashed_withNop (h : squashed s i = true) : squashed (withNop s) i = true := by
  unfold squashed at h ⊢
  rcases Bool.or_eq_true _ _ ▸ h with hpf | hint
  · rw [pageFaultTaken_withNop hpf, Bool.true_or]
  · rw [interruptTakenQualified_withNop hint, Bool.or_true]

/-- **The WFI request of a page-fault cycle.** -/
theorem wfi_of_pageFault (h : pageFaultTaken s i = true) :
    (exOut s i).wfiInstruction =
      (ExecutionUnit.legalWfi (exInWith s i false) && !executeTriggerHit s i) := by
  have hin := exIn_of_pageFault h
  have hreach : ExecutionUnit.reachesOpcode (exIn s i) =
      (exStageActive s i && !executeTriggerHit s i) := by
    rw [hin]
    simp [ExecutionUnit.reachesOpcode, exInWith, executeTriggerHit]
  rw [exOut, executionUnit_wfi, hreach, hin]
  cases hw : ExecutionUnit.legalWfi (exInWith s i false)
  · simp
  · have hid : s.idEx.dec.instrId = .wfi := by
      simp only [ExecutionUnit.legalWfi, Bool.and_eq_true, beq_iff_eq] at hw
      exact hw.1.2
    have hfence : fenceDrainStall s i = false := by simp [fenceDrainStall, hid]
    simp [exStageActive_of_pageFault h hfence]

/-- **The sleep flag after a squash** is the NOP's, unless a page fault is taken over a WFI. -/
theorem nextWfiActive_withNop (h : squashed s i = true) (hw : pageFaultOverWfi s i = false) :
    nextWfiActive s i = nextWfiActive (withNop s) i := by
  have hresume : wfiResumePending (withNop s) = wfiResumePending s := rfl
  have hactive : (withNop s).wfiActive = s.wfiActive := rfl
  unfold nextWfiActive
  rw [hresume, hactive]
  rcases Bool.or_eq_true _ _ ▸ h with hpf | hint
  · have hnop : (exOut (withNop s) i).wfiInstruction = false := by
      rw [wfi_of_pageFault (pageFaultTaken_withNop hpf), system_withNop.2.2, Bool.false_and]
    rw [hnop, wfi_of_pageFault hpf]
    cases hr : wfiResumePending s
    · cases ha : s.wfiActive
      · have hq : (ExecutionUnit.legalWfi (exInWith s i false) && !executeTriggerHit s i) =
            false := by
          simpa [pageFaultOverWfi, hpf, hr, ha] using hw
        rw [hq]
      · simp
    · rfl
  · rw [exOut_withNop_of_interrupt hint]

/-- **A squashed instruction leaves no trace**: outside the two page-fault races, the core goes on
as if a NOP had been in EX, the free-running counters apart. -/
theorem next_withNop (h : squashed s i = true) (hx : pageFaultOverXret s i = false)
    (hw : pageFaultOverWfi s i = false) :
    dropCounters (next s i) = dropCounters (next (withNop s) i) := by
  obtain ⟨r, hr⟩ := exists_redirect_of_squashed h
  have hc : Commits s i r := (commits_iff hr).mpr hx
  have hc' : Commits (withNop s) i r :=
    (commits_iff ((redirect?_withNop h).trans hr)).mpr pageFaultOverXret_withNop
  obtain ⟨hflush, hmem, hj⟩ := next_of_squashed h
  obtain ⟨hflush', hmem', hj'⟩ := next_of_squashed (squashed_withNop h)
  have hpc : nextPc s i = nextPc (withNop s) i := hc.pc.trans hc'.pc.symm
  -- Both take the same trap, and everything in flight is flushed.
  have hcsr : (next s i).csrFile.dropCounters = (next (withNop s) i).csrFile.dropCounters := by
    rw [hc.csrFile, hc'.csrFile]
    exact CsrFile.dropCounters_enter_tick s.csrFile r.trap rfl rfl rfl rfl
  have hwfi := nextWfiActive_withNop h hw
  have hdiscard : nextFetchDiscard s i = nextFetchDiscard (withNop s) i := by
    unfold nextFetchDiscard
    rw [hj, hj']
    rfl
  have hifId : (next s i).ifId = (next (withNop s) i).ifId := by
    simp only [next, IfId.next, hflush, hflush', Bool.true_or, if_true]
    rfl
  have hidEx : (next s i).idEx = (next (withNop s) i).idEx := by
    simp only [next, IdEx.next, hflush, hflush', if_true]
    rfl
  have hexMem : (next s i).exMem = (next (withNop s) i).exMem := by
    simp only [next, ExMem.next, hmem, hmem', if_true]
    rfl
  change (⟨nextPc s i, (next s i).ifId, (next s i).idEx, (next s i).exMem, (next s i).memWb,
      (next s i).registerFile, (next s i).csrFile.dropCounters, (next s i).atomicLsu,
      nextWfiActive s i, nextFetchOutstanding s i, nextFetchDiscard s i, (next s i).amoWritePhase,
      (next s i).amoReadData⟩ : RiscvCpu) = _
  rw [hpc, hifId, hidEx, hexMem, hcsr, hwfi, hdiscard]
  rfl

/-! ## The races leave a trace -/

/-- A page fault over a WFI leaves the sleep flag set. -/
theorem trace_of_pageFaultOverWfi (h : pageFaultOverWfi s i = true) :
    (next s i).wfiActive = true ∧ (next (withNop s) i).wfiActive = false := by
  simp only [pageFaultOverWfi, Bool.and_eq_true, Bool.not_eq_true'] at h
  obtain ⟨⟨⟨hpf, hw⟩, ha⟩, hr⟩ := h
  have hs : (exOut s i).wfiInstruction = true := by
    rw [wfi_of_pageFault hpf, hw.1, hw.2]
    rfl
  have hnop : (exOut (withNop s) i).wfiInstruction = false := by
    rw [wfi_of_pageFault (pageFaultTaken_withNop hpf), system_withNop.2.2, Bool.false_and]
  constructor
  · change nextWfiActive s i = true
    simp [nextWfiActive, hr, hs]
  · change nextWfiActive (withNop s) i = false
    have hr' : wfiResumePending (withNop s) = false := hr
    have ha' : (withNop s).wfiActive = false := ha
    simp [nextWfiActive, hr', ha', hnop]

/-- A page fault over an xRET makes the CSR file do what the NOP's page fault does not. -/
theorem trace_of_pageFaultOverXret (h : pageFaultOverXret s i = true) (r : Redirect)
    (hr : redirect? s i = some r) : ¬ Commits s i r ∧ Commits (withNop s) i r := by
  have hpf : pageFaultTaken s i = true := by
    simp only [pageFaultOverXret, Bool.and_eq_true] at h
    exact h.1
  have hsq : squashed s i = true := by rw [squashed, hpf, Bool.true_or]
  exact ⟨not_commits_of_pageFaultOverXret h r,
    (commits_iff ((redirect?_withNop hsq).trans hr)).mpr pageFaultOverXret_withNop⟩

/-- A page fault over an xRET has the CSR file return: from M-mode by an MRET, or from S-mode or
M-mode by an SRET. -/
theorem action_of_pageFaultOverXret (h : pageFaultOverXret s i = true) :
    (s.csrFile.action (csrIn s i) = .mret) ∨
      (s.csrFile.action (csrIn s i) = .sret ∧ s.csrFile.privilegeMode ≠ privU) := by
  have hpf : (memStagePageFaultTaken s i || instrStagePageFaultTaken s i) = true := by
    simp only [pageFaultOverXret, Bool.and_eq_true] at h
    exact h.1
  have hxret := xret_of_pageFault hpf
  rw [h] at hxret
  have hint : interruptTakenQualified s i = false := by
    rcases Bool.or_eq_true _ _ ▸ hpf with h | h <;> simp [interruptTakenQualified, h]
  cases hm : (exOut s i).mretInstruction
  · have hs : (exOut s i).sretInstruction = true := by simpa [hm] using hxret
    refine .inr ⟨by simp [CsrFile.action, csrIn, hint, hm, hs], fun hu => ?_⟩
    rw [exOut, executionUnit_sret] at hs
    simp only [ExecutionUnit.legalSret, Bool.and_eq_true, Bool.not_eq_true',
      Bool.or_eq_false_iff] at hs
    have hult : s.csrFile.privilegeMode.ult privS = false := hs.2.2.1
    rw [hu] at hult
    exact absurd hult (by decide)
  · exact .inl (by simp [CsrFile.action, csrIn, hint, hm])

/-- **A return is no trap**: in an architected mode the CSR file ends up with another mode or
another `mstatus`. -/
theorem csrFile_ne_of_pageFaultOverXret
    (ha : CsrFile.architected s.csrFile.privilegeMode = true)
    (h : pageFaultOverXret s i = true) :
    (next s i).csrFile.dropCounters ≠ (next (withNop s) i).csrFile.dropCounters := by
  have hsq : squashed s i = true := by
    simp only [pageFaultOverXret, Bool.and_eq_true] at h
    rw [squashed, pageFaultTaken, h.1, Bool.true_or]
  obtain ⟨r, hr⟩ := exists_redirect_of_squashed hsq
  obtain ⟨-, hc⟩ := trace_of_pageFaultOverXret h r hr
  have hbelow : r.trap.toSupervisor = true → (withNop s).csrFile.privilegeMode ≠ privM :=
    belowM_of_trap hc.action
  have hret := next_csrFile s i
  obtain ⟨g, hg, hmode⟩ : ∃ g : CsrFile, (next (withNop s) i).csrFile = g.enter r.trap ∧
      g.privilegeMode = s.csrFile.privilegeMode := ⟨_, hc.csrFile, rfl⟩
  rw [hret, hg]
  rcases action_of_pageFaultOverXret h with hact | ⟨hact, hu⟩
  · have hM := privM_of_mret hact
    rw [hact]
    exact CsrFile.mret_ne_enter _ (Bool.eq_false_of_not_eq_true fun ht => hbelow ht hM)
      (hmode.trans hM)
  · rw [hact]
    exact CsrFile.sret_ne_enter _ fun ht =>
      hmode.trans (CsrFile.privS_of_architected ha hu (hbelow ht))

/-! ## Runs -/

/-- **Squashed instructions over runs.** In every cycle of every run from reset that squashes the
instruction in EX, other than by a page fault over a legal MRET or SRET or over a WFI that goes to
sleep, the next state is that of a NOP in EX, the two free-running counters apart. In an architected
mode these page faults always leave a trace. -/
theorem run_squashed_traceless (ins : ℕ → CpuIn) (n : ℕ)
    (h : squashed (run ins n) (ins n) = true) :
    (pageFaultOverXret (run ins n) (ins n) = false →
      pageFaultOverWfi (run ins n) (ins n) = false →
      dropCounters (next (run ins n) (ins n)) =
        dropCounters (next (withNop (run ins n)) (ins n))) ∧
    (CsrFile.architected (run ins n).csrFile.privilegeMode = true →
      dropCounters (next (run ins n) (ins n)) =
        dropCounters (next (withNop (run ins n)) (ins n)) →
      pageFaultOverXret (run ins n) (ins n) = false ∧
        pageFaultOverWfi (run ins n) (ins n) = false) := by
  refine ⟨next_withNop h, fun ha heq => ⟨?_, ?_⟩⟩
  · by_contra hx
    exact csrFile_ne_of_pageFaultOverXret ha (Bool.eq_true_of_not_eq_false hx)
      (congrArg RiscvCpu.csrFile heq)
  · by_contra hw
    obtain ⟨hs, hnop⟩ := trace_of_pageFaultOverWfi (Bool.eq_true_of_not_eq_false hw)
    have hwfi := congrArg RiscvCpu.wfiActive heq
    rw [dropCounters_wfiActive, dropCounters_wfiActive, hs, hnop] at hwfi
    exact Bool.false_ne_true hwfi.symm

/-- The load of `mprvLoadFault` faults over an ECALL, which leaves no trace. -/
theorem squashed_ecall_traceless :
    dropCounters (next (run (mprvLoadFault 0x00000073#32) 11) (mprvLoadFault 0x00000073#32 11)) =
      dropCounters (next (withNop (run (mprvLoadFault 0x00000073#32) 11))
        (mprvLoadFault 0x00000073#32 11)) :=
  (run_squashed_traceless (mprvLoadFault 0x00000073#32) 11 (by decide +kernel)).1
    (by decide +kernel) (by decide +kernel)

/-- **A load page fault over a WFI leaves the core asleep.** The WFI is squashed, and yet the
handler's first fetch waits behind its sleep flag; a NOP leaves the flag clear. -/
theorem wfi_under_loadFault :
    dataMmuEnable (run (mprvLoadFault 0x10500073#32) 11) = true ∧
      squashed (run (mprvLoadFault 0x10500073#32) 11) (mprvLoadFault 0x10500073#32 11) = true ∧
      wfiStall (next (run (mprvLoadFault 0x10500073#32) 11) (mprvLoadFault 0x10500073#32 11)) =
        true ∧
      wfiStall (next (withNop (run (mprvLoadFault 0x10500073#32) 11))
        (mprvLoadFault 0x10500073#32 11)) = false ∧
      dropCounters (next (run (mprvLoadFault 0x10500073#32) 11)
          (mprvLoadFault 0x10500073#32 11)) ≠
        dropCounters (next (withNop (run (mprvLoadFault 0x10500073#32) 11))
          (mprvLoadFault 0x10500073#32 11)) := by
  refine ⟨by decide +kernel, by decide +kernel, by decide +kernel, by decide +kernel, ?_⟩
  intro h
  obtain ⟨h1, h2⟩ := trace_of_pageFaultOverWfi
    (s := run (mprvLoadFault 0x10500073#32) 11) (i := mprvLoadFault 0x10500073#32 11)
    (by decide +kernel)
  have hwfi := congrArg RiscvCpu.wfiActive h
  simp only [dropCounters_wfiActive, h1, h2] at hwfi
  exact Bool.false_ne_true hwfi.symm

end RiscvCpu

end Synapse32
