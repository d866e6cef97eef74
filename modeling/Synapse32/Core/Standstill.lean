import Synapse32.Core.Interrupts

/-! # A core that stands still

A cycle in which no instruction leaves EX, nothing is squashed and the core does not sleep. It
changes no CSR but the counters and the pending bits, flushes nothing and redirects nothing. What it
waits for can be read off the pipeline: an access in MEM, a fence in EX, or the next fetch. -/

namespace Synapse32

namespace RiscvCpu

variable {s : RiscvCpu} {i : CpuIn} {programPc : Word}

/-- **The core stands still.** -/
structure Standstill (s : RiscvCpu) (i : CpuIn) : Prop where
  issues : issues s i = false
  exMemFlush : exMemFlush s i = false
  awake : wfiStall s = false

/-- A core that stands still takes no page fault. -/
theorem Standstill.noPageFault (h : Standstill s i) :
    memStagePageFaultTaken s i = false ∧ instrStagePageFaultTaken s i = false := by
  have hx := h.exMemFlush
  simp only [RiscvCpu.exMemFlush, Bool.or_eq_false_iff] at hx
  exact hx.1.1

/-- A core that stands still does not redirect. -/
theorem Standstill.jSignal (h : Standstill s i) (hf : FrontInv s programPc) :
    jSignal s i = false := by
  by_contra hj
  have hi := hf.issues_of_jSignal (Bool.eq_true_of_not_eq_false hj) h.exMemFlush
  exact Bool.false_ne_true (h.issues.symm.trans hi)

/-- An instruction in EX is held there. -/
theorem Standstill.held (h : Standstill s i) (hv : s.idEx.instrValid = true) :
    exStageActive s i = false := by
  have hi := h.issues
  rw [RiscvCpu.issues, hv, h.exMemFlush] at hi
  simpa using hi

/-- **Only what runs freely in the CSR file moves.** -/
theorem Standstill.csrFile (h : Standstill s i) (hf : FrontInv s programPc) :
    (next s i).csrFile = s.csrFile.tick (csrIn s i) := by
  rw [next_csrFile, action_of_not_issues hf h.issues h.exMemFlush]
  rfl

/-- Neither the TLB nor the instruction cache is flushed. -/
theorem Standstill.flushes (h : Standstill s i) :
    tlbFlush s i = false ∧ instrCacheFlush s i = false := by
  have hex : (exStageActive s i && s.idEx.instrValid) = false := by
    cases hv : s.idEx.instrValid
    · exact Bool.and_false _
    · rw [h.held hv, Bool.false_and]
  exact ⟨by rw [tlbFlush, hex, Bool.false_and], by rw [instrCacheFlush, hex, Bool.false_and]⟩

/-! ## The privilege of accesses -/

/-- **What translation and protection read** of the CSR file. -/
structure SamePrivilege (s s' : RiscvCpu) : Prop where
  satp : s'.csrFile.satp = s.csrFile.satp
  mstatus : s'.csrFile.mstatus = s.csrFile.mstatus
  privilegeMode : s'.csrFile.privilegeMode = s.csrFile.privilegeMode

/-- `SamePrivilege` is reflexive. -/
theorem SamePrivilege.refl (s : RiscvCpu) : SamePrivilege s s := ⟨rfl, rfl, rfl⟩

/-- `SamePrivilege` is transitive. -/
theorem SamePrivilege.trans {s s' s'' : RiscvCpu} (h : SamePrivilege s s')
    (h' : SamePrivilege s' s'') : SamePrivilege s s'' :=
  ⟨h'.satp.trans h.satp, h'.mstatus.trans h.mstatus, h'.privilegeMode.trans h.privilegeMode⟩

/-- **Standing still keeps what translation and protection read.** -/
theorem Standstill.privilege (h : Standstill s i) (hf : FrontInv s programPc) :
    SamePrivilege s (next s i) := by
  refine ⟨?_, ?_, ?_⟩ <;> rw [h.csrFile hf] <;> rfl

section SamePrivilege

variable {s' : RiscvCpu} (h : SamePrivilege s s')
include h

/-- The data side translates as before. -/
theorem SamePrivilege.dataMmuEnable : dataMmuEnable s' = dataMmuEnable s := by
  rw [RiscvCpu.dataMmuEnable, RiscvCpu.dataMmuEnable, dataPrivilegeMode, dataPrivilegeMode, h.satp,
    h.mstatus, h.privilegeMode]

/-- The fetch side translates as before. -/
theorem SamePrivilege.instrMmuEnable : instrMmuEnable s' = instrMmuEnable s := by
  rw [RiscvCpu.instrMmuEnable, RiscvCpu.instrMmuEnable, h.satp, h.privilegeMode]

end SamePrivilege

/-! ## An access that waits -/

/-- **MEM holds the same access**, in the same phase. -/
structure SameAccess (s s' : RiscvCpu) : Prop where
  exMem : s'.exMem = s.exMem
  phase : s'.amoWritePhase = s.amoWritePhase
  lsu : s'.atomicLsu = s.atomicLsu

/-- `SameAccess` is reflexive. -/
theorem SameAccess.refl (s : RiscvCpu) : SameAccess s s := ⟨rfl, rfl, rfl⟩

/-- `SameAccess` is transitive. -/
theorem SameAccess.trans {s s' s'' : RiscvCpu} (h : SameAccess s s') (h' : SameAccess s' s'') :
    SameAccess s s'' :=
  ⟨h'.exMem.trans h.exMem, h'.phase.trans h.phase, h'.lsu.trans h.lsu⟩

section SameAccess

variable {s' : RiscvCpu} (h : SameAccess s s')
include h

/-- The access reads as before. -/
theorem SameAccess.memRdEn : memRdEn s' = memRdEn s := by
  simp only [RiscvCpu.memRdEn, atomicReadEnable, isLrW, isAmoW, h.exMem, h.phase]

/-- The access writes as before. -/
theorem SameAccess.memWrEn : memWrEn s' = memWrEn s := by
  simp only [RiscvCpu.memWrEn, atomicWriteEnable, exMemStdStoreReq, exMemStoreBe, isScW, isAmoW,
    scSuccess, h.exMem, h.phase, h.lsu]

/-- The access is a store to translation as before. -/
theorem SameAccess.dataWriteIntent : dataWriteIntent s' = dataWriteIntent s := by
  rw [RiscvCpu.dataWriteIntent, RiscvCpu.dataWriteIntent, h.memWrEn, isAmoW, isAmoW, h.exMem]

end SameAccess

/-- **An access that waits for its first answer stays as it is.** -/
theorem sameAccess_next (hw : memWait s i = true) (hrv : i.dataRvalidIn = false) :
    SameAccess s (next s i) := by
  refine ⟨exMem_next_of_memWait hw, ?_, ?_⟩
  · rw [next_amoWritePhase, hrv, Bool.and_false, Bool.and_false]
    rfl
  · change s.atomicLsu.next _ _ (memWait s i) _ _ = _
    rw [hw]
    rfl

/-- Without a page fault and without an answer, an access waits. -/
theorem memWait_of_noAnswer (hreq : (memRdEn s || memWrEn s) = true) (hrv : i.dataRvalidIn = false)
    (hpf : memStagePageFaultTaken s i = false) : memWait s i = true := by
  rw [memWait, hreq, hrv, hpf]
  rfl

/-! ## A fence that waits, and an empty front end -/

/-- **Behind an access that has left, a held instruction is a fence**, and stays. -/
theorem Standstill.fence (h : Standstill s i) (hf : FrontInv s programPc)
    (hw : memWait s i = false) (hv : s.idEx.instrValid = true) :
    fenceDrainStall s i = true ∧ (next s i).pc = s.pc ∧ (next s i).idEx.instrValid = true ∧
      (next s i).idEx.dec = s.idEx.dec := by
  have hfence : fenceDrainStall s i = true := by
    have ha := h.held hv
    rw [exStageActive, hw] at ha
    simpa using ha
  have hhold : pipelineHold s i = true := by rw [pipelineHold, hfence, Bool.or_true, Bool.true_or]
  refine ⟨hfence, ?_⟩
  rcases front_cases s i with ⟨hj, -⟩ | ⟨-, hpc, -, -, hex⟩ | ⟨-, -, -, hh, -⟩ | ⟨-, hh, -⟩
  · exact absurd ((h.jSignal hf).symm.trans hj) Bool.false_ne_true
  · rw [hex]
    exact ⟨hpc, hv, rfl⟩
  · exact absurd (hh.symm.trans hhold) Bool.false_ne_true
  · exact absurd (hh.symm.trans hhold) Bool.false_ne_true

/-- **Behind an empty EX the front end moves.** -/
theorem Standstill.front (h : Standstill s i) (hf : FrontInv s programPc)
    (hw : memWait s i = false) (hv : s.idEx.instrValid = false) :
    (next s i).idEx.instrValid = s.ifId.instructionValid ∧
      (next s i).ifId.instructionValid = (!fetchWait s i) ∧
      (fetchWait s i = true → (next s i).pc = s.pc) ∧
      (next s i).fetchDiscard = (!i.instrRvalidIn && s.fetchDiscard) := by
  have hj := h.jSignal hf
  have hfence : fenceDrainStall s i = false := by rw [fenceDrainStall, hv, Bool.false_and]
  have hhold : pipelineHold s i = false := by rw [pipelineHold, h.awake, hfence, hw]; rfl
  have hz : hazardStall s = false := by
    obtain ⟨-, hid, -⟩ := (hf.exBubble hv).facts
    rw [hazardStall, loadUseDetector, hid]
    rfl
  rcases front_cases s i with ⟨hj', -⟩ | ⟨-, -, -, hh, -⟩ | ⟨-, -, -, -, hz', -⟩ |
    ⟨-, -, -, hex, hfetch⟩
  · exact absurd (hj.symm.trans hj') Bool.false_ne_true
  · exact absurd (hhold.symm.trans hh) Bool.false_ne_true
  · exact absurd (hz.symm.trans hz') Bool.false_ne_true
  · refine ⟨by rw [hex]; rfl, ?_, ?_, ?_⟩
    · rcases hfetch with ⟨hf, -, hid⟩ | ⟨hf, -, hid⟩ <;> rw [hid, hf] <;> rfl
    · intro hwait
      rcases hfetch with ⟨-, hpc, -⟩ | ⟨hf, -⟩
      · exact hpc
      · exact absurd (hf.symm.trans hwait) Bool.false_ne_true
    · change nextFetchDiscard s i = _
      rw [nextFetchDiscard, hj]
      cases i.instrRvalidIn <;> rfl

/-- A MEM that has done its work goes on with an inert slot. -/
theorem Standstill.inert (h : Standstill s i) (hf : FrontInv s programPc)
    (hw : memWait s i = false) : (next s i).exMem.Inert := by
  rcases mem_cases (i := i) (l := { programPc := programPc, inMem := none, left := [] }) hf with
    ⟨hw', -⟩ | ⟨-, hi, -⟩ | ⟨-, -, hx⟩
  · exact absurd (hw.symm.trans hw') Bool.false_ne_true
  · exact absurd (h.issues.symm.trans hi) Bool.false_ne_true
  · exact hx

end RiscvCpu

end Synapse32
