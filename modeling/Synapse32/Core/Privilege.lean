import Synapse32.Core.Interrupts

/-! # Privilege

Which CSR actions the core can ask for in which mode, and what follows for the state that machine
mode owns: the modes that are reachable, MPRV below machine mode, and the machine CSRs while
supervisor and user code runs. -/

namespace Synapse32

/-! ## Legal actions -/

namespace ExecutionUnit

variable {x : ExIn}

/-- Reporting the instruction word raises no exception of its own. -/
theorem reportInstr_synchronous (w : Word) (o : ExOut) :
    (reportInstr w o).synchronous = o.synchronous := by
  unfold reportInstr
  split <;> rfl

/-- A CSR instruction that EX lets through exists and is allowed to the mode. -/
theorem legal_of_executeCsr (h : (executeCsr x).synchronous = false) :
    x.csrValid = true ∧ csrReadOnlyViolation x = false ∧ csrPrivilegeViolation x = false := by
  have hlegal : (!x.csrValid || csrReadOnlyViolation x || csrPrivilegeViolation x ||
      csrSatpTvmViolation x || csrCounterAccessViolation x) = false := by
    by_contra hv
    rw [executeCsr, if_pos (Bool.eq_true_of_not_eq_false hv)] at h
    exact Bool.false_ne_true h.symm
  simp only [Bool.or_eq_false_iff, Bool.not_eq_false'] at hlegal
  exact ⟨hlegal.1.1.1.1, hlegal.1.1.1.2, hlegal.1.1.2⟩

/-- A CSR id is executed as a CSR instruction. -/
theorem executeSystem_of_csr (h : csrReadEnable x.instrId = true) :
    executeSystem x = executeCsr x := by
  unfold executeSystem
  revert h
  cases x.instrId <;> first | exact fun _ => rfl | exact fun h => absurd h Bool.false_ne_true

/-- **A CSR instruction that takes no exception is legal.** -/
theorem legal_of_csr (ha : x.stageEnable = true) (hp : x.interruptPending = false)
    (hop : x.opcode = 0b1110011#7) (hid : csrReadEnable x.instrId = true)
    (hs : (executionUnit x).synchronous = false) :
    x.csrValid = true ∧ csrReadOnlyViolation x = false ∧ csrPrivilegeViolation x = false := by
  rw [executionUnit, reportInstr_synchronous, ha] at hs
  change (ungated x).synchronous = false at hs
  unfold ungated at hs
  rw [hp, if_neg Bool.false_ne_true] at hs
  split at hs
  · exact absurd hs.symm Bool.false_ne_true
  · split at hs
    · exact absurd hs.symm Bool.false_ne_true
    · rw [executeOpcode_of_system x hop, executeSystem_of_csr hid] at hs
      exact legal_of_executeCsr hs

/-- A delegated trap comes from below M-mode. -/
theorem belowM_of_delegate {cause : ℕ} (h : delegate x cause = true) : x.privilegeMode ≠ privM := by
  rw [delegate, Bool.and_eq_true, bne_iff_ne] at h
  exact h.1

/-- An environment call is delegated from below M-mode only. -/
theorem belowM_of_delegateEcall (h : delegateEcall x = true) : x.privilegeMode ≠ privM := by
  simp only [delegateEcall, Bool.or_eq_true, Bool.and_eq_true, beq_iff_eq] at h
  rcases h with h | h <;> rw [h.1] <;> decide

/-- An output goes to S-mode only from below M-mode. -/
def DelegatesBelowM (x : ExIn) (o : ExOut) : Prop :=
  o.trapToSupervisor = true → x.privilegeMode ≠ privM

/-- A trap that follows `medeleg` goes to S-mode from below M-mode only. -/
theorem delegatesBelowM_trap {o : ExOut} (cause : ℕ)
    (h : o.trapToSupervisor = delegate x cause) : DelegatesBelowM x o :=
  fun ht => belowM_of_delegate (h.symm.trans ht)

/-- A jump that traps goes to S-mode from below M-mode only. -/
theorem delegatesBelowM_jumpTo (v target : Word) :
    DelegatesBelowM x (jumpTo x { execOutput := v } target) := by
  unfold jumpTo
  split
  · exact delegatesBelowM_trap 0 rfl
  · exact nofun

/-- A load that traps goes to S-mode from below M-mode only. -/
theorem delegatesBelowM_executeLoad : DelegatesBelowM x (executeLoad x) := by
  unfold executeLoad
  dsimp only
  split
  · exact delegatesBelowM_trap 3 rfl
  · split
    · exact delegatesBelowM_trap 4 rfl
    · exact nofun

/-- A store that traps goes to S-mode from below M-mode only. -/
theorem delegatesBelowM_executeStore : DelegatesBelowM x (executeStore x) := by
  unfold executeStore
  dsimp only
  split
  · exact delegatesBelowM_trap 3 rfl
  · split
    · exact delegatesBelowM_trap 6 rfl
    · exact nofun

/-- An atomic that traps goes to S-mode from below M-mode only. -/
theorem delegatesBelowM_executeAtomic : DelegatesBelowM x (executeAtomic x) := by
  unfold executeAtomic
  dsimp only
  split
  · exact delegatesBelowM_trap 3 rfl
  · split
    · exact delegatesBelowM_trap 4 rfl
    · split
      · exact delegatesBelowM_trap 6 rfl
      · exact nofun

/-- A branch that traps goes to S-mode from below M-mode only. -/
theorem delegatesBelowM_executeBranch : DelegatesBelowM x (executeBranch x) := by
  unfold executeBranch
  split
  · exact delegatesBelowM_jumpTo _ _
  · exact nofun

/-- A CSR instruction that traps goes to S-mode from below M-mode only. -/
theorem delegatesBelowM_executeCsr : DelegatesBelowM x (executeCsr x) := by
  unfold executeCsr
  split
  · exact delegatesBelowM_trap 2 rfl
  · split <;> exact nofun

/-- A system instruction that traps goes to S-mode from below M-mode only. -/
theorem delegatesBelowM_executeSystem : DelegatesBelowM x (executeSystem x) := by
  unfold executeSystem
  split
  · split
    · exact delegatesBelowM_trap 2 rfl
    · exact nofun
  · split
    · exact delegatesBelowM_trap 2 rfl
    · exact nofun
  · exact belowM_of_delegateEcall
  · exact delegatesBelowM_trap 3 rfl
  · split
    · exact delegatesBelowM_trap 2 rfl
    · exact nofun
  · split
    · exact delegatesBelowM_trap 2 rfl
    · exact nofun
  · exact delegatesBelowM_executeCsr

/-- **EX delegates only from below M-mode.** -/
theorem delegatesBelowM_executionUnit (hp : x.interruptPending = false) :
    DelegatesBelowM x (executionUnit x) := by
  have hreport : ∀ (w : Word) (o : ExOut),
      (reportInstr w o).trapToSupervisor = o.trapToSupervisor := by
    intro w o
    unfold reportInstr
    split <;> rfl
  have hungated : DelegatesBelowM x (ungated x) := by
    unfold ungated
    rw [hp, if_neg Bool.false_ne_true]
    split
    · exact delegatesBelowM_trap 3 rfl
    · split
      · exact delegatesBelowM_trap 2 rfl
      · exact executeOpcode_cases x (fun _ => nofun) (fun _ => delegatesBelowM_executeLoad)
          (fun _ => delegatesBelowM_executeStore) (fun _ => delegatesBelowM_executeAtomic)
          (fun _ => delegatesBelowM_executeBranch) (fun _ => delegatesBelowM_jumpTo _ _)
          (fun _ => delegatesBelowM_jumpTo _ _) (fun _ => nofun) (fun _ => nofun)
          (fun _ => delegatesBelowM_executeSystem) (fun _ _ => nofun) nofun
  unfold DelegatesBelowM executionUnit
  rw [hreport]
  cases x.stageEnable
  · exact nofun
  · exact hungated

end ExecutionUnit

namespace RiscvCpu

variable {s : RiscvCpu} {i : CpuIn}

/-- In an EX that takes no interrupt nothing is pending for it, a page fault of the cycle apart. -/
theorem interruptPending_of_not_taken (ha : exStageActive s i = true)
    (h : interruptTakenQualified s i = false) : (exIn s i).interruptPending = false := by
  by_contra hp
  have hp : (exIn s i).interruptPending = true := Bool.eq_true_of_not_eq_false hp
  have hout := executionUnit_interrupt (x := exIn s i) hp ha
  have hin : ((interrupt s).interruptPending && !memStagePageFaultTaken s i &&
      !instrStagePageFaultTaken s i) = true := hp
  simp only [Bool.and_eq_true, Bool.not_eq_true'] at hin
  simp [interruptTakenQualified, synchronousExceptionTaken, exOut, hout, hin.1.2, hin.2,
    ExecutionUnit.redirect] at h

/-- What a CSR write that is performed comes with. -/
theorem of_action_write {a : BitVec 12} {d : Word}
    (h : s.csrFile.action (csrIn s i) = .write a d) :
    interruptTakenQualified s i = false ∧ CsrFile.synchronousException (csrIn s i) = false ∧
      csrWriteEnable s i = true ∧ exStageActive s i = true ∧ a = csrAddr s ∧
      d = ExecutionUnit.csrWriteData (exIn s i) := by
  have hsel := CsrFile.action_selects s.csrFile (csrIn s i)
  rw [h] at hsel
  cases hsel with
  | write hint hsync hw =>
    have hw : csrWriteEnable s i = true ∧ exStageActive s i = true := Bool.and_eq_true_iff.mp hw
    exact ⟨hint, hsync, hw.1, hw.2, rfl, rfl⟩

/-- Without an exception in the CSR file, EX raises none and no page fault is taken. -/
theorem quiet_of_not_synchronousException
    (h : CsrFile.synchronousException (csrIn s i) = false) :
    (exOut s i).synchronous = false ∧ memStagePageFaultTaken s i = false ∧
      instrStagePageFaultTaken s i = false := by
  simp only [CsrFile.synchronousException, csrIn, Bool.or_eq_false_iff] at h
  obtain ⟨⟨⟨⟨⟨⟨⟨⟨⟨hec, heb⟩, hil⟩, him⟩, hlm⟩, hsm⟩, hif⟩, hlf⟩, hsf⟩, hbp⟩ := h
  refine ⟨?_, ?_, hif⟩
  · rw [ExOut.synchronous, hec, heb, hil, him, hlm, hsm, hbp]
    rfl
  · rw [memStagePageFaultTaken, hlf, hsf]
    rfl

/-- A CSR instruction that writes has a CSR id. -/
theorem csrReadEnable_of_csrWriteEnable (h : csrWriteEnable s i = true) :
    ExecutionUnit.csrReadEnable s.idEx.dec.instrId = true := by
  have h : (csrExec s.idEx.dec.instrId (ExecutionUnit.rs1Value (exIn s i)) s.idEx.dec.rs1
    (csrReadData s i) (csrRmwData s i)).csrWriteEnable = true := h
  revert h
  cases s.idEx.dec.instrId <;>
    first | exact fun _ => rfl | exact fun h => absurd h Bool.false_ne_true

/-- **A CSR write that is performed is legal**: the CSR exists, and it belongs to the mode. -/
theorem legal_of_write {programPc : Word} (hf : FrontInv s programPc) {a : BitVec 12} {d : Word}
    (h : s.csrFile.action (csrIn s i) = .write a d) :
    CsrFile.csrValid a = true ∧ s.csrFile.privilegeMode.ult (a.extractLsb' 8 2) = false := by
  obtain ⟨hint, hsync, hwe, ha, rfl, -⟩ := of_action_write h
  have hid := csrReadEnable_of_csrWriteEnable hwe
  have hop : s.idEx.dec.opcode = 0b1110011#7 := by
    cases hv : s.idEx.instrValid
    · rw [(hf.exBubble hv).facts.2.1] at hid
      exact absurd hid Bool.false_ne_true
    · rw [hf.exDec hv] at hid ⊢
      have hne : Decoder.instrId s.idEx.instr ≠ .invalid := by
        intro hn
        have hid : ExecutionUnit.csrReadEnable (Decoder.instrId s.idEx.instr) = true := hid
        rw [hn] at hid
        exact Bool.false_ne_true hid
      change Decoder.opcode s.idEx.instr = _
      rw [Decoder.opcode_eq_majorOpcode hne]
      have hid : ExecutionUnit.csrReadEnable (Decoder.instrId s.idEx.instr) = true := hid
      revert hid
      cases Decoder.instrId s.idEx.instr <;>
        first | exact fun _ => rfl | exact fun h => absurd h Bool.false_ne_true
  obtain ⟨hvalid, -, hpriv⟩ := ExecutionUnit.legal_of_csr (x := exIn s i) ha
    (interruptPending_of_not_taken ha hint) hop hid (quiet_of_not_synchronousException hsync).1
  exact ⟨hvalid, hpriv⟩

/-- What a trap that is performed comes from. -/
theorem of_action_trap {t : Trap} (h : s.csrFile.action (csrIn s i) = .trap t) :
    (interruptTakenQualified s i = true ∧
      t = ⟨(interrupt s).interruptToSupervisor, interruptPc s, (interrupt s).interruptCause,
        none⟩) ∨
    (interruptTakenQualified s i = false ∧ t.toSupervisor = csrTrapToSupervisor s i ∧
      t.epc = csrExceptionPc s i) := by
  have hsel := CsrFile.action_selects s.csrFile (csrIn s i)
  rw [h] at hsel
  cases hsel with
  | interrupt hint => exact .inl ⟨hint, rfl⟩
  | exception hint => exact .inr ⟨hint, rfl, rfl⟩

/-- An interrupt for S-mode is pending only below M-mode. -/
theorem belowM_of_interruptToSupervisor (h : (interrupt s).interruptToSupervisor = true) :
    s.csrFile.privilegeMode ≠ privM := by
  intro hm
  unfold interrupt interruptController at h
  rw [hm] at h
  have hU : (privM == privU) = false := by decide
  have hS : (privM == privS) = false := by decide
  simp only [hU, hS, Bool.false_and, Bool.or_self, Bool.false_eq_true, if_false] at h
  repeat' first | exact Bool.false_ne_true h | split at h

/-- **A trap to S-mode comes from below M-mode.** -/
theorem belowM_of_trap {t : Trap} (h : s.csrFile.action (csrIn s i) = .trap t)
    (ht : t.toSupervisor = true) : s.csrFile.privilegeMode ≠ privM := by
  rcases of_action_trap h with ⟨-, rfl⟩ | ⟨hint, hsup, -⟩
  · exact belowM_of_interruptToSupervisor ht
  rw [hsup, csrTrapToSupervisor] at ht
  split at ht
  · rw [memStageTrapToSupervisor, Bool.and_eq_true, bne_iff_ne] at ht
    exact ht.1
  split at ht
  · rw [instrStageTrapToSupervisor, Bool.and_eq_true, bne_iff_ne] at ht
    exact ht.1
  · cases ha : exStageActive s i
    · obtain ⟨v, a, m, tv, hout⟩ := executionUnit_held (x := exIn s i) ha
      rw [exOut, hout] at ht
      exact absurd ht Bool.false_ne_true
    · exact ExecutionUnit.delegatesBelowM_executionUnit (x := exIn s i)
        (interruptPending_of_not_taken ha hint) ht

/-- What an MRET that is performed comes with. -/
theorem of_action_mret (h : s.csrFile.action (csrIn s i) = .mret) :
    interruptTakenQualified s i = false ∧ (exOut s i).mretInstruction = true := by
  have hsel := CsrFile.action_selects s.csrFile (csrIn s i)
  rw [h] at hsel
  cases hsel with
  | mret hint hmret => exact ⟨hint, hmret⟩

/-- **MRET is performed in M-mode only.** -/
theorem privM_of_mret (h : s.csrFile.action (csrIn s i) = .mret) :
    s.csrFile.privilegeMode = privM := by
  have hm := (of_action_mret h).2
  rw [exOut, executionUnit_mret] at hm
  simp only [ExecutionUnit.legalMret, Bool.and_eq_true, beq_iff_eq] at hm
  exact hm.2.2

end RiscvCpu

/-! ## Fields of `mstatus` -/

namespace CsrFile

/-- `mstatus.MPP`. -/
def mpp (mstatus : Word) : BitVec 2 := mstatus.extractLsb' 11 2

/-- `mstatus.MPRV`. -/
def mprv (mstatus : Word) : Bool := mstatus.getLsbD 17

/-- MPP is bits 11 and 12. -/
theorem mpp_eq {w w' : Word} (h : ∀ j < 2, w.getLsbD (11 + j) = w'.getLsbD (11 + j)) :
    mpp w = mpp w' := by
  apply BitVec.eq_of_getLsbD_eq
  intro j hj
  rw [mpp, mpp, BitVec.getLsbD_extractLsb', BitVec.getLsbD_extractLsb', h j hj]

/-- **The bits of `mstatus` after an MRET**: MIE from MPIE, MPIE set, MPP cleared, and MPRV cleared
where MPP was not M-mode. -/
theorem getLsbD_mret (f : CsrFile) (j : ℕ) :
    f.mret.mstatus.getLsbD j =
      if j = 17 ∧ mpp f.mstatus ≠ privM then false
      else if j = 12 ∨ j = 11 then false
      else if j = 7 then true
      else if j = 3 then f.mstatus.getLsbD 7
      else f.mstatus.getLsbD j := by
  have hm : f.mret.mstatus = if mpp f.mstatus != privM
      then setBit (setBit (setBit (setBit (setBit f.mstatus 3 (f.mstatus.getLsbD 7)) 7 true)
        11 (privU.getLsbD 0)) 12 (privU.getLsbD 1)) 17 false
      else setBit (setBit (setBit (setBit f.mstatus 3 (f.mstatus.getLsbD 7)) 7 true)
        11 (privU.getLsbD 0)) 12 (privU.getLsbD 1) := rfl
  have hU : privU.getLsbD 0 = false ∧ privU.getLsbD 1 = false := by decide
  rw [hm, hU.1, hU.2]
  -- MPRV is cleared by a return to another mode than M-mode.
  by_cases hp : mpp f.mstatus = privM
  · have hne : (mpp f.mstatus != privM) = false := by simp [hp]
    rw [hne, if_neg Bool.false_ne_true, if_neg fun h => h.2 hp]
    by_cases h12 : j = 12
    · simp [h12]
    · by_cases h11 : j = 11 <;> simp [h12, h11]
  · have hne : (mpp f.mstatus != privM) = true := by simp [hp]
    rw [hne, if_pos rfl]
    by_cases h17 : j = 17
    · simp [h17, hp]
    · rw [if_neg fun h => h17 h.1]
      by_cases h12 : j = 12
      · simp [h12]
      · by_cases h11 : j = 11 <;> simp [h17, h12, h11]

/-- **The bits of `mstatus` after an SRET**: SIE from SPIE, SPIE set, SPP cleared. -/
theorem getLsbD_sret (f : CsrFile) (j : ℕ) :
    f.sret.mstatus.getLsbD j =
      if j = 8 then false else if j = 5 then true
      else if j = 1 then f.mstatus.getLsbD 5 else f.mstatus.getLsbD j := by
  have hm : f.sret.mstatus =
      setBit (setBit (setBit f.mstatus 1 (f.mstatus.getLsbD 5)) 5 true) 8 false := rfl
  rw [hm]
  simp

/-- **The bits of `mstatus` after entry to S-mode**: SPIE from SIE, SIE cleared, SPP from the
mode. -/
theorem getLsbD_pushS (w : Word) (m : BitVec 2) (j : ℕ) :
    (pushS w m).getLsbD j =
      if j = 8 then m == privS else if j = 1 then false
      else if j = 5 then w.getLsbD 1 else w.getLsbD j := by
  simp [pushS]

/-- **The bits of `mstatus` after entry to M-mode**: MPIE from MIE, MIE cleared, MPP from the
mode. -/
theorem getLsbD_pushM (w : Word) (m : BitVec 2) (j : ℕ) :
    (pushM w m).getLsbD j =
      if j = 12 then m.getLsbD 1 else if j = 11 then m.getLsbD 0 else if j = 3 then false
      else if j = 7 then w.getLsbD 3 else w.getLsbD j := by
  simp [pushM]

/-- A trap to S-mode keeps MPP. -/
theorem mpp_pushS (w : Word) (m : BitVec 2) : mpp (pushS w m) = mpp w := by
  refine mpp_eq fun j hj => ?_
  rw [getLsbD_pushS, if_neg (by omega), if_neg (by omega), if_neg (by omega)]

/-- Entry to M-mode saves the mode in MPP. -/
theorem mpp_pushM (w : Word) (m : BitVec 2) : mpp (pushM w m) = m := by
  apply BitVec.eq_of_getLsbD_eq
  intro j hj
  rw [mpp, BitVec.getLsbD_extractLsb', getLsbD_pushM]
  have hj : j = 0 ∨ j = 1 := by omega
  rcases hj with rfl | rfl <;> simp

/-- MRET leaves U-mode in MPP. -/
theorem mpp_mret (f : CsrFile) : mpp f.mret.mstatus = privU := by
  apply BitVec.eq_of_getLsbD_eq
  intro j hj
  rw [mpp, BitVec.getLsbD_extractLsb', getLsbD_mret]
  have hj : j = 0 ∨ j = 1 := by omega
  rcases hj with rfl | rfl <;> simp [privU]

/-- SRET keeps MPP. -/
theorem mpp_sret (f : CsrFile) : mpp f.sret.mstatus = mpp f.mstatus := by
  refine mpp_eq fun j hj => ?_
  rw [getLsbD_sret, if_neg (by omega), if_neg (by omega), if_neg (by omega)]

/-- A write of `mstatus` stores MPP as it is given. -/
theorem mpp_and_writableMask (d : Word) : mpp (d &&& mstatusWritableMask) = mpp d := by
  refine mpp_eq fun j hj => ?_
  have hj : j = 0 ∨ j = 1 := by omega
  rcases hj with rfl | rfl <;> simp [mstatusWritableMask]

/-- A write of `sstatus` keeps MPP. -/
theorem mpp_sstatusWrite (w d : Word) :
    mpp ((w &&& ~~~sstatusMask) ||| (d &&& sstatusMask)) = mpp w := by
  refine mpp_eq fun j hj => ?_
  have hj : j = 0 ∨ j = 1 := by omega
  rcases hj with rfl | rfl <;> simp [sstatusMask]

/-- Trap entry pushes onto the stack of the mode it enters. -/
theorem enter_mstatus (f : CsrFile) (t : Trap) :
    (f.enter t).mstatus = if t.toSupervisor then pushS f.mstatus f.privilegeMode
      else pushM f.mstatus f.privilegeMode := by
  unfold enter
  exact apply_ite CsrFile.mstatus _ _ _

/-- A trap enters the mode that it goes to. -/
theorem enter_privilegeMode (f : CsrFile) (t : Trap) :
    (f.enter t).privilegeMode = if t.toSupervisor then privS else privM := by
  unfold enter
  exact apply_ite CsrFile.privilegeMode _ _ _

/-- What a CSR write does to `mstatus`. -/
theorem csrWrite_mstatus (f : CsrFile) (a : BitVec 12) (d : Word) :
    (f.csrWrite a d).mstatus =
      if a = 0x300#12 then d &&& mstatusWritableMask
      else if a = 0x100#12 then (f.mstatus &&& ~~~sstatusMask) ||| (d &&& sstatusMask)
      else f.mstatus := by
  unfold csrWrite
  by_cases h3 : a = 0x300#12
  · rw [if_pos h3, if_pos h3]
  rw [if_neg h3, if_neg h3]
  by_cases h1 : a = 0x100#12
  · rw [if_pos h1, if_pos h1]
  rw [if_neg h1, if_neg h1]
  simp only [apply_ite CsrFile.mstatus, ite_self]

/-- No CSR write changes the mode. -/
theorem csrWrite_privilegeMode (f : CsrFile) (a : BitVec 12) (d : Word) :
    (f.csrWrite a d).privilegeMode = f.privilegeMode := by
  unfold csrWrite
  simp only [apply_ite CsrFile.privilegeMode, ite_self]

/-! ## Reachable modes -/

/-- U-, S- or M-mode. -/
def architected (m : BitVec 2) : Bool := m == privU || m == privS || m == privM

/-- The mode is an architected one, and so is the one MRET returns to. -/
structure ArchitectedModes (f : CsrFile) : Prop where
  mode : architected f.privilegeMode = true
  mpp : architected (mpp f.mstatus) = true

/-- A write that stores the reserved encoding 2 in MPP. -/
def storesReservedMpp : CsrAction → Bool
  | .write a d => a == 0x300#12 && mpp d == 0b10#2
  | _ => false

/-- The encodings that are not architected are the reserved one. -/
theorem architected_eq (m : BitVec 2) : architected m = !(m == 0b10#2) := by
  revert m
  decide

/-- After reset the core is in M-mode, and MPP is a mode too. -/
theorem architectedModes_reset : ArchitectedModes reset := ⟨by decide, by decide⟩

/-- **Step.** Any other action keeps the modes architected. -/
theorem ArchitectedModes.perform {f : CsrFile} (h : ArchitectedModes f) {a : CsrAction}
    (ha : storesReservedMpp a = false) : ArchitectedModes (f.perform a) := by
  cases a with
  | trap t =>
    constructor
    · change architected (f.enter t).privilegeMode = true
      rw [enter_privilegeMode]
      split <;> rfl
    · change architected (CsrFile.mpp (f.enter t).mstatus) = true
      rw [enter_mstatus]
      split
      · rw [mpp_pushS]
        exact h.mpp
      · rw [mpp_pushM]
        -- MPP is the mode that trapped.
        exact h.mode
  | mret =>
    refine ⟨h.mpp, ?_⟩
    change architected (CsrFile.mpp f.mret.mstatus) = true
    rw [mpp_mret]
    rfl
  | sret =>
    constructor
    · change architected (if f.mstatus.getLsbD 8 then privS else privU) = true
      split <;> rfl
    · change architected (CsrFile.mpp f.sret.mstatus) = true
      rw [mpp_sret]
      exact h.mpp
  | write a d =>
    constructor
    · change architected (f.csrWrite a d).privilegeMode = true
      rw [csrWrite_privilegeMode]
      exact h.mode
    · change architected (CsrFile.mpp (f.csrWrite a d).mstatus) = true
      rw [csrWrite_mstatus]
      split
      · rename_i h3
        rw [mpp_and_writableMask, architected_eq]
        simpa [storesReservedMpp, h3] using ha
      · split
        · rw [mpp_sstatusWrite]
          -- `sstatus` does not show MPP.
          exact h.mpp
        · exact h.mpp
  | none => exact h

/-- Such a write leaves MPP reserved. -/
theorem not_architectedModes_of_storesReservedMpp (f : CsrFile) {a : CsrAction}
    (ha : storesReservedMpp a = true) : ¬ ArchitectedModes (f.perform a) := by
  intro h
  cases a
  case write a d =>
    simp only [storesReservedMpp, Bool.and_eq_true, beq_iff_eq] at ha
    have hmpp : architected (CsrFile.mpp (f.csrWrite a d).mstatus) = true := h.mpp
    rw [csrWrite_mstatus, if_pos ha.1, mpp_and_writableMask, ha.2] at hmpp
    exact Bool.false_ne_true hmpp
  all_goals exact Bool.false_ne_true ha

end CsrFile

namespace RiscvCpu

open CsrFile

/-- The CSR action of cycle `n` of a run. -/
def actionAt (ins : ℕ → CpuIn) (n : ℕ) : CsrAction :=
  (run ins n).csrFile.action (csrIn (run ins n) (ins n))

/-- The CSR file of a run, one cycle on. -/
theorem run_csrFile_succ (ins : ℕ → CpuIn) (n : ℕ) :
    (run ins (n + 1)).csrFile =
      ((run ins n).csrFile.tick (csrIn (run ins n) (ins n))).perform (actionAt ins n) :=
  next_csrFile _ _

/-- **Architected modes over runs.** Through a run the mode and MPP stay architected exactly when no
CSR instruction writes `mstatus` with the reserved encoding in MPP. -/
theorem run_architectedModes_iff (ins : ℕ → CpuIn) (n : ℕ) :
    (∀ m ≤ n, ArchitectedModes (run ins m).csrFile) ↔
      ∀ m < n, storesReservedMpp (actionAt ins m) = false := by
  constructor
  · intro h m hm
    by_contra hs
    have hnext := h (m + 1) hm
    rw [run_csrFile_succ] at hnext
    exact not_architectedModes_of_storesReservedMpp _ (Bool.eq_true_of_not_eq_false hs) hnext
  · intro h
    have hrun : ∀ m, m ≤ n → ArchitectedModes (run ins m).csrFile := by
      intro m
      induction m with
      | zero => exact fun _ => architectedModes_reset
      | succ m ih =>
        intro hm
        have hprev := ih (by omega)
        have htick : ArchitectedModes
            ((run ins m).csrFile.tick (csrIn (run ins m) (ins m))) := ⟨hprev.mode, hprev.mpp⟩
        rw [run_csrFile_succ]
        exact htick.perform (h m (by omega))
    exact hrun

/-- The words of a run that writes MPP = 2 and returns. The two words behind the CSR write come
twice, since it refetches them. -/
def reservedMppWords : List Word :=
  [0x000010B7#32, 0x30009073#32,                -- lui x1, 0x1; csrw mstatus, x1
    0x30200073#32, nopInstr,
    0x30200073#32]                              -- mret

/-- The inputs of that run. -/
def reservedMpp (n : ℕ) : CpuIn := quietFetch (reservedMppWords.getD n nopInstr)

/-- **The reserved mode is reachable.** A write of `mstatus` stores MPP = 2, and the MRET behind it
enters mode 2. -/
theorem run_reservedMode :
    mpp (run reservedMpp 4).csrFile.mstatus = 0b10#2 ∧
      (run reservedMpp 7).csrFile.privilegeMode = 0b10#2 ∧
      ¬ ∀ m ≤ 7, ArchitectedModes (run reservedMpp m).csrFile := by
  refine ⟨by decide +kernel, by decide +kernel, fun h => ?_⟩
  exact absurd (h 7 (by omega)).mode (by decide +kernel)

end RiscvCpu

/-! ## MPRV -/

namespace CsrFile

/-- Below M-mode MPRV is clear. -/
def MprvConfined (f : CsrFile) : Prop := f.privilegeMode ≠ privM → mprv f.mstatus = false

/-- An SRET with MPRV set. -/
def sretKeepsMprv (f : CsrFile) (a : CsrAction) : Bool := a == .sret && mprv f.mstatus

/-- **The actions the core allows** in a mode: a CSR write only of a CSR of the mode, a trap to
S-mode only from below M-mode, and MRET only in M-mode. -/
structure Allowed (f : CsrFile) (a : CsrAction) : Prop where
  write : ∀ r d, a = .write r d → csrValid r = true ∧
    f.privilegeMode.ult (r.extractLsb' 8 2) = false
  trap : ∀ t, a = .trap t → t.toSupervisor = true → f.privilegeMode ≠ privM
  mret : a = .mret → f.privilegeMode = privM

/-- A mode that may write a machine CSR is M-mode. -/
theorem privM_of_not_ult {m : BitVec 2} (h : m.ult 0b11#2 = false) : m = privM := by
  revert h
  revert m
  decide

/-- A trap keeps MPRV. -/
theorem mprv_enter (f : CsrFile) (t : Trap) : mprv (f.enter t).mstatus = mprv f.mstatus := by
  rw [enter_mstatus]
  split
  · exact getLsbD_pushS _ _ 17
  · exact getLsbD_pushM _ _ 17

/-- **Step.** MPRV stays confined, unless an SRET keeps it. -/
theorem MprvConfined.perform {f : CsrFile} (h : MprvConfined f) {a : CsrAction}
    (hl : Allowed f a) (ha : sretKeepsMprv f a = false) : MprvConfined (f.perform a) := by
  cases a with
  | trap t =>
    intro hmode
    change (f.enter t).privilegeMode ≠ privM at hmode
    change mprv (f.enter t).mstatus = false
    rw [mprv_enter]
    -- Only a trap into S-mode ends below M-mode, and it comes from below.
    refine h (hl.trap t rfl ?_)
    by_contra ht
    rw [enter_privilegeMode, if_neg ht] at hmode
    exact hmode rfl
  | mret =>
    intro hmode
    have hmpp : mpp f.mstatus ≠ privM := hmode
    change f.mret.mstatus.getLsbD 17 = false
    -- An MRET below M-mode clears MPRV.
    rw [getLsbD_mret, if_pos ⟨rfl, hmpp⟩]
  | sret =>
    intro _
    change f.sret.mstatus.getLsbD 17 = false
    rw [getLsbD_sret]
    simpa [sretKeepsMprv, mprv] using ha
  | write r d =>
    intro hmode
    change (f.csrWrite r d).privilegeMode ≠ privM at hmode
    change mprv (f.csrWrite r d).mstatus = false
    rw [csrWrite_privilegeMode] at hmode
    rw [csrWrite_mstatus]
    split
    · rename_i h3
      -- `mstatus` itself is written in M-mode only.
      have hult := (hl.write r d rfl).2
      rw [h3] at hult
      exact absurd (privM_of_not_ult hult) hmode
    · split
      · -- MPRV is not in the `sstatus` view.
        have h17 : mprv ((f.mstatus &&& ~~~sstatusMask) ||| (d &&& sstatusMask)) =
            mprv f.mstatus := by simp [mprv, sstatusMask]
        rw [h17]
        exact h hmode
      · exact h hmode
  | none => exact h

/-- An SRET that keeps MPRV takes it below M-mode. -/
theorem not_mprvConfined_of_sretKeepsMprv {f : CsrFile} {a : CsrAction}
    (ha : sretKeepsMprv f a = true) : ¬ MprvConfined (f.perform a) := by
  simp only [sretKeepsMprv, Bool.and_eq_true, beq_iff_eq] at ha
  obtain ⟨rfl, hm⟩ := ha
  intro h
  have hmode : f.sret.privilegeMode ≠ privM := by
    change (if f.mstatus.getLsbD 8 then privS else privU) ≠ privM
    split <;> decide
  have hclear : f.sret.mstatus.getLsbD 17 = false := h hmode
  rw [getLsbD_sret] at hclear
  exact Bool.false_ne_true (hclear.symm.trans (by simpa [mprv] using hm))

end CsrFile

namespace RiscvCpu

open CsrFile

variable {s : RiscvCpu} {i : CpuIn}

/-- **The core asks only for what its mode allows.** -/
theorem allowed_action {programPc : Word} (hf : FrontInv s programPc) :
    Allowed s.csrFile (s.csrFile.action (csrIn s i)) where
  write _ _ h := legal_of_write hf h
  trap _ h := belowM_of_trap h
  mret h := privM_of_mret h

/-- **What the core does to its CSR file is allowed** in the mode it is in. -/
theorem allowed_actionAt (ins : ℕ → CpuIn) (n : ℕ) :
    Allowed (run ins n).csrFile (actionAt ins n) :=
  allowed_action (frontInv_runFrom idle_reset n)

/-- After a trap into M-mode, data accesses are made in M-mode. -/
theorem dataPrivilegeMode_of_trap {ins : ℕ → CpuIn} {n : ℕ} {t : Trap}
    (h : MprvConfined (run ins n).csrFile) (ha : actionAt ins n = .trap t)
    (ht : t.toSupervisor = false) : dataPrivilegeMode (run ins (n + 1)) = privM := by
  have hnext := run_csrFile_succ ins n
  rw [ha] at hnext
  have hmode : (run ins (n + 1)).csrFile.privilegeMode = privM := by
    rw [hnext]
    change (CsrFile.enter _ t).privilegeMode = privM
    rw [enter_privilegeMode, ht]
    rfl
  have hmprv : mprv (run ins (n + 1)).csrFile.mstatus = mprv (run ins n).csrFile.mstatus := by
    rw [hnext]
    exact mprv_enter _ t
  have hmpp : mpp (run ins (n + 1)).csrFile.mstatus = (run ins n).csrFile.privilegeMode := by
    rw [hnext]
    change mpp (CsrFile.enter _ t).mstatus = _
    rw [enter_mstatus, ht]
    exact mpp_pushM _ _
  unfold dataPrivilegeMode
  split
  · -- MPRV survives the entry, so it was set before: then the trap came from M-mode.
    rename_i huse
    rw [Bool.and_eq_true] at huse
    have hset : mprv (run ins n).csrFile.mstatus = true := hmprv.symm.trans huse.2
    refine hmpp.trans ?_
    by_contra hne
    exact Bool.false_ne_true ((h hne).symm.trans hset)
  · exact hmode

/-- **MPRV stays in M-mode** up to cycle `n`, and a handler in M-mode starts with the accesses of
M-mode. -/
structure MprvContained (ins : ℕ → CpuIn) (n : ℕ) : Prop where
  confined : ∀ m ≤ n, MprvConfined (run ins m).csrFile
  handler : ∀ m < n, ∀ t, actionAt ins m = .trap t → t.toSupervisor = false →
    dataPrivilegeMode (run ins (m + 1)) = privM

/-- **MPRV over runs.** MPRV stays in M-mode through a run exactly when no SRET is performed while
it is set. -/
theorem run_mprvContained_iff (ins : ℕ → CpuIn) (n : ℕ) :
    MprvContained ins n ↔
      ∀ m < n, sretKeepsMprv (run ins m).csrFile (actionAt ins m) = false := by
  constructor
  · intro h m hm
    by_contra hs
    have hnext := h.confined (m + 1) hm
    rw [run_csrFile_succ] at hnext
    have hkeep : sretKeepsMprv ((run ins m).csrFile.tick (csrIn (run ins m) (ins m)))
        (actionAt ins m) = true := Bool.eq_true_of_not_eq_false hs
    exact not_mprvConfined_of_sretKeepsMprv hkeep hnext
  · intro h
    have hrun : ∀ m, m ≤ n → MprvConfined (run ins m).csrFile := by
      intro m
      induction m with
      | zero => exact fun _ hmode => absurd rfl hmode
      | succ m ih =>
        intro hm
        have htick : MprvConfined
            ((run ins m).csrFile.tick (csrIn (run ins m) (ins m))) := ih (by omega)
        have hallow := allowed_actionAt ins m
        rw [run_csrFile_succ]
        exact htick.perform ⟨hallow.write, hallow.trap, hallow.mret⟩ (h m (by omega))
    exact ⟨hrun, fun m hm t ha ht => dataPrivilegeMode_of_trap (hrun m (by omega)) ha ht⟩

/-- The words of a run that sets MPRV, with MPP = U, returns to U-mode by SRET and makes an
`ecall`. -/
def sretMprvWords : List Word :=
  [0x000200B7#32, 0x30009073#32,                -- lui x1, 0x20; csrw mstatus, x1
    0x10200073#32, nopInstr,
    0x10200073#32, nopInstr, nopInstr,          -- sret
    0x00000073#32]                              -- ecall

/-- The inputs of that run. -/
def sretMprv (n : ℕ) : CpuIn := quietFetch (sretMprvWords.getD n nopInstr)

/-- **SRET takes MPRV out of M-mode.** U-mode runs with MPRV set, and the handler of its `ecall`
starts with the data accesses of U-mode. -/
theorem run_sretMprv :
    (run sretMprv 7).csrFile.privilegeMode = privU ∧ mprv (run sretMprv 7).csrFile.mstatus = true ∧
      (run sretMprv 10).csrFile.privilegeMode = privM ∧
      dataPrivilegeMode (run sretMprv 10) = privU ∧
      ¬ MprvContained sretMprv 10 := by
  refine ⟨by decide +kernel, by decide +kernel, by decide +kernel, by decide +kernel, fun h => ?_⟩
  exact absurd (h.confined 7 (by omega) (by decide +kernel)) (by decide +kernel)

end RiscvCpu

/-! ## Machine state below machine mode -/

namespace CsrFile

/-- **What machine mode owns** in the CSR file: its own CSRs and triggers, `mstatus` outside the
`sstatus` view, `mie` outside the supervisor interrupts, and the software-pending bits that `sip`
cannot write. The counters run by themselves, and `mip` follows its sources. -/
structure MachineState where
  mstatus : Word
  misa : Word
  medeleg : Word
  mideleg : Word
  mie : Word
  mtvec : Word
  mcounteren : Word
  mscratch : Word
  mepc : Word
  mcause : Word
  mtval : Word
  mcountinhibit : Word
  pmpcfg0 : Word
  pmpaddr0 : Word
  tselect : BitVec 2
  triggerCtl : Fin 4 → BitVec 7
  triggerAddr : Fin 4 → Word
  stipSoftwarePending : Bool
  seipSoftwarePending : Bool

/-- The machine state of a CSR file. -/
def machineState (f : CsrFile) : MachineState where
  mstatus := f.mstatus &&& ~~~sstatusMask
  misa := f.misa
  medeleg := f.medeleg
  mideleg := f.mideleg
  mie := f.mie &&& ~~~sInterruptMask
  mtvec := f.mtvec
  mcounteren := f.mcounteren
  mscratch := f.mscratch
  mepc := f.mepc
  mcause := f.mcause
  mtval := f.mtval
  mcountinhibit := f.mcountinhibit
  pmpcfg0 := f.pmpcfg0
  pmpaddr0 := f.pmpaddr0
  tselect := f.tselect
  triggerCtl := f.triggerCtl
  triggerAddr := f.triggerAddr
  stipSoftwarePending := f.stipSoftwarePending
  seipSoftwarePending := f.seipSoftwarePending

/-- What a write through a view stores outside the view is what was there. -/
theorem and_not_of_viewWrite (w d m : Word) :
    ((w &&& ~~~m) ||| (d &&& m)) &&& ~~~m = w &&& ~~~m := by
  ext j hj
  simp only [BitVec.getElem_and, BitVec.getElem_or, BitVec.getElem_not]
  cases w[j] <;> cases d[j] <;> cases m[j] <;> rfl

/-- **A CSR write of a lower mode leaves the machine state alone.** -/
theorem machineState_csrWrite (f : CsrFile) {r : BitVec 12} (d : Word)
    (hr : r.extractLsb' 8 2 ≠ 0b11#2) : (f.csrWrite r d).machineState = f.machineState := by
  have hM : ∀ {c : BitVec 12} {g : CsrFile}, r = c → c.extractLsb' 8 2 = 0b11#2 →
      g.machineState = f.machineState := fun h hc => absurd (h ▸ hc) hr
  have hmstatus := and_not_of_viewWrite f.mstatus d sstatusMask
  have hmie := and_not_of_viewWrite f.mie d sInterruptMask
  -- The registers of M-mode are out of reach; `sstatus` and `sie` keep what is outside them.
  let P : CsrFile → Prop := fun g => g.machineState = f.machineState
  change P (f.csrWrite r d)
  unfold csrWrite
  refine iteInduction (fun h => hM h rfl) fun _ => ?_
  refine iteInduction (fun _ => ?_) fun _ => ?_
  · exact congrArg (fun w => { machineState f with mstatus := w }) hmstatus
  iterate 4 refine iteInduction (fun h => hM h rfl) fun _ => ?_
  refine iteInduction (fun _ => ?_) fun _ => ?_
  · exact congrArg (fun w => { machineState f with mie := w }) hmie
  iterate 7 refine iteInduction (fun h => hM h rfl) fun _ => ?_
  iterate 8 refine iteInduction (fun _ => rfl) fun _ => ?_
  iterate 10 refine iteInduction (fun h => hM h rfl) fun _ => ?_
  rfl

/-- Entry to S-mode and SRET stay in the `sstatus` view. -/
theorem pushS_outside (w : Word) (m : BitVec 2) :
    pushS w m &&& ~~~sstatusMask = w &&& ~~~sstatusMask := by
  apply BitVec.eq_of_getLsbD_eq
  intro j hj
  rw [BitVec.getLsbD_and, BitVec.getLsbD_and, getLsbD_pushS]
  by_cases h8 : j = 8
  · simp [h8, sstatusMask]
  by_cases h1 : j = 1
  · simp [h1, sstatusMask]
  by_cases h5 : j = 5
  · simp [h5, sstatusMask]
  · simp [h8, h1, h5]

/-- SRET changes `mstatus` inside `sstatus` only. -/
theorem sret_outside (f : CsrFile) :
    f.sret.mstatus &&& ~~~sstatusMask = f.mstatus &&& ~~~sstatusMask := by
  apply BitVec.eq_of_getLsbD_eq
  intro j hj
  rw [BitVec.getLsbD_and, BitVec.getLsbD_and, getLsbD_sret]
  by_cases h8 : j = 8
  · simp [h8, sstatusMask]
  by_cases h5 : j = 5
  · simp [h5, sstatusMask]
  by_cases h1 : j = 1
  · simp [h1, sstatusMask]
  · simp [h8, h1, h5]

/-- A trap into M-mode. -/
def trapsToM : CsrAction → Bool
  | .trap t => !t.toSupervisor
  | _ => false

/-- **Step.** Below M-mode, an action that does not trap into it leaves the machine state alone and
stays below M-mode; only the two views of `mie` and `mip` write the interrupt bits. -/
theorem machineState_perform {f : CsrFile} {a : CsrAction} (hl : Allowed f a)
    (hmode : f.privilegeMode ≠ privM) (ha : trapsToM a = false) :
    (f.perform a).privilegeMode ≠ privM ∧ (f.perform a).machineState = f.machineState ∧
      ((∀ d, a ≠ .write 0x104#12 d) → (f.perform a).mie = f.mie) ∧
      ((∀ d, a ≠ .write 0x144#12 d) →
        (f.perform a).ssipSoftwarePending = f.ssipSoftwarePending) := by
  cases a with
  | trap t =>
    have ht : t.toSupervisor = true := by simpa [trapsToM] using ha
    -- Entry to S-mode writes the supervisor's registers and its bits of `mstatus`.
    have henter : f.enter t =
        { f with
          sepc := t.epc, scause := t.cause, stval := t.tval.getD f.stval
          mstatus := pushS f.mstatus f.privilegeMode, privilegeMode := privS } := if_pos ht
    change (f.enter t).privilegeMode ≠ privM ∧ (f.enter t).machineState = _ ∧
      (_ → (f.enter t).mie = _) ∧ (_ → (f.enter t).ssipSoftwarePending = _)
    rw [henter]
    have hS : privS ≠ privM := by decide
    refine ⟨hS, ?_, fun _ => rfl, fun _ => rfl⟩
    exact congrArg (fun w => { machineState f with mstatus := w }) (pushS_outside _ _)
  | mret => exact absurd (hl.mret rfl) hmode
  | sret =>
    refine ⟨?_, ?_, fun _ => rfl, fun _ => rfl⟩
    · change (if f.mstatus.getLsbD 8 then privS else privU) ≠ privM
      split <;> decide
    · exact congrArg (fun w => { machineState f with mstatus := w }) (sret_outside f)
  | write r d =>
    -- A CSR that is written here is no machine CSR.
    have hr : r.extractLsb' 8 2 ≠ 0b11#2 := by
      intro h3
      have hult := (hl.write r d rfl).2
      rw [h3] at hult
      exact hmode (privM_of_not_ult hult)
    refine ⟨?_, machineState_csrWrite f d hr, fun hsie => ?_, fun hsip => ?_⟩
    · change (f.csrWrite r d).privilegeMode ≠ privM
      rwa [csrWrite_privilegeMode]
    · have hne : r ≠ 0x104#12 := fun h => hsie d (by rw [h])
      have h3 : r ≠ 0x304#12 := fun h => hr (by rw [h]; rfl)
      change (f.csrWrite r d).mie = f.mie
      unfold csrWrite
      simp only [apply_ite CsrFile.mie, if_neg hne, if_neg h3, ite_self]
    · have hne : r ≠ 0x144#12 := fun h => hsip d (by rw [h])
      have h3 : r ≠ 0x344#12 := fun h => hr (by rw [h]; rfl)
      change (f.csrWrite r d).ssipSoftwarePending = f.ssipSoftwarePending
      unfold csrWrite
      simp only [apply_ite CsrFile.ssipSoftwarePending, if_neg hne, if_neg h3, ite_self]
  | none => exact ⟨hmode, rfl, fun _ => rfl, fun _ => rfl⟩

end CsrFile

namespace RiscvCpu

open CsrFile

/-- **Lower modes cannot change machine state.** From a cycle below M-mode on, as long as no trap
goes to M-mode, the machine state stays what it is; the enables and the software-pending bit of the
supervisor interrupts change only through `sie` and `sip`, whatever `mideleg` says. -/
theorem run_machineState (ins : ℕ → CpuIn) {n m : ℕ} (hnm : n ≤ m)
    (hmode : (run ins n).csrFile.privilegeMode ≠ privM)
    (htrap : ∀ k, n ≤ k → k < m → trapsToM (actionAt ins k) = false) :
    (run ins m).csrFile.machineState = (run ins n).csrFile.machineState ∧
      ((∀ k, n ≤ k → k < m → ∀ d, actionAt ins k ≠ .write 0x104#12 d) →
        (run ins m).csrFile.mie = (run ins n).csrFile.mie) ∧
      ((∀ k, n ≤ k → k < m → ∀ d, actionAt ins k ≠ .write 0x144#12 d) →
        (run ins m).csrFile.ssipSoftwarePending = (run ins n).csrFile.ssipSoftwarePending) := by
  suffices hall : (run ins m).csrFile.privilegeMode ≠ privM ∧
      (run ins m).csrFile.machineState = (run ins n).csrFile.machineState ∧
      ((∀ k, n ≤ k → k < m → ∀ d, actionAt ins k ≠ .write 0x104#12 d) →
        (run ins m).csrFile.mie = (run ins n).csrFile.mie) ∧
      ((∀ k, n ≤ k → k < m → ∀ d, actionAt ins k ≠ .write 0x144#12 d) →
        (run ins m).csrFile.ssipSoftwarePending = (run ins n).csrFile.ssipSoftwarePending)
    from hall.2
  induction m, hnm using Nat.le_induction with
  | base => exact ⟨hmode, rfl, fun _ => rfl, fun _ => rfl⟩
  | succ m hnm ih =>
    obtain ⟨hm, hstate, hmie, hssip⟩ := ih fun k hk hkm => htrap k hk (by omega)
    have hallow := allowed_actionAt ins m
    obtain ⟨hm', hstate', hmie', hssip'⟩ := machineState_perform
      (f := (run ins m).csrFile.tick (csrIn (run ins m) (ins m)))
      ⟨hallow.write, hallow.trap, hallow.mret⟩ hm (htrap m hnm (by omega))
    rw [run_csrFile_succ]
    refine ⟨hm', hstate'.trans hstate, fun hsie => ?_, fun hsip => ?_⟩
    · exact (hmie' (hsie m hnm (by omega))).trans (hmie fun k hk hkm => hsie k hk (by omega))
    · exact (hssip' (hsip m hnm (by omega))).trans (hssip fun k hk hkm => hsip k hk (by omega))

/-- The inputs of a run that returns to S-mode and executes one instruction there. -/
def afterMret (word : Word) (n : ℕ) : CpuIn :=
  quietFetch ([0x000010B7#32, 0x3000B073#32,    -- lui x1, 0x1; csrc mstatus, x1
    0x30200073#32, nopInstr,
    0x30200073#32, nopInstr, nopInstr,          -- mret
    word].getD n nopInstr)

/-- `csrwi sie, 2`. -/
def sieWrite : ℕ → CpuIn := afterMret 0x10415073#32

/-- `csrwi sip, 2`. -/
def sipWrite : ℕ → CpuIn := afterMret 0x14415073#32

/-- S-mode writes `sie`, and the machine state and SSIP stay. -/
theorem run_machineState_sieWrite :
    (run sieWrite 10).csrFile.machineState = (run sieWrite 7).csrFile.machineState ∧
      (run sieWrite 10).csrFile.ssipSoftwarePending =
        (run sieWrite 7).csrFile.ssipSoftwarePending := by
  have h := run_machineState sieWrite (n := 7) (m := 10) (by omega) (by decide +kernel) (by
    intro k hk hkm
    interval_cases k <;> decide +kernel)
  refine ⟨h.1, h.2.2 ?_⟩
  intro k hk hkm d hd
  have hnone : ∀ a, actionAt sieWrite k = a → (match a with | .write r _ => r | _ => 0#12) ≠
      0x144#12 → False := by
    rintro _ rfl hne
    rw [hd] at hne
    exact hne rfl
  interval_cases k <;> exact hnone _ rfl (by decide +kernel)

/-- The enables of the supervisor interrupts that `mideleg` does not delegate. -/
def undelegatedEnables (f : CsrFile) : Word := f.mie &&& sInterruptMask &&& ~~~f.mideleg

/-- The supervisor software interrupt is pending by software, and `mideleg` does not delegate it. -/
def undelegatedPending (f : CsrFile) : Bool := f.ssipSoftwarePending && !f.mideleg.getLsbD 1

/-- **S-mode changes what is not delegated.** With `mideleg` zero and no trap taken, its write of
`sie` sets the enable of the supervisor software interrupt, which goes to M-mode, and its write of
`sip` makes this interrupt pending. -/
theorem run_undelegatedEnables :
    ((run sieWrite 7).csrFile.privilegeMode = privS ∧
      (∀ k, 7 ≤ k → k < 10 → trapsToM (actionAt sieWrite k) = false) ∧
      (run sieWrite 7).csrFile.mideleg = 0#32 ∧
      undelegatedEnables (run sieWrite 7).csrFile = 0#32 ∧
      undelegatedEnables (run sieWrite 10).csrFile = 0x2#32) ∧
    ((run sipWrite 7).csrFile.privilegeMode = privS ∧
      (∀ k, 7 ≤ k → k < 10 → trapsToM (actionAt sipWrite k) = false) ∧
      (run sipWrite 7).csrFile.mideleg = 0#32 ∧
      undelegatedPending (run sipWrite 7).csrFile = false ∧
      undelegatedPending (run sipWrite 10).csrFile = true) := by
  refine ⟨⟨by decide +kernel, ?_, by decide +kernel, by decide +kernel, by decide +kernel⟩,
    by decide +kernel, ?_, by decide +kernel, by decide +kernel, by decide +kernel⟩
  all_goals
    intro k hk hkm
    interval_cases k <;> decide +kernel

end RiscvCpu

end Synapse32
