import Synapse32.Core.Fences
import Synapse32.Core.Retirement

/-! # Software-pending interrupt bits

`mip` mixes what software wrote with what the interrupt lines show, and lags the software bits by a
cycle. A CSR instruction that reads it combines its operand with that register; that it still
leaves behind exactly what it asks for rests on the redirect behind every CSR write, which keeps
the next instruction out of EX for the cycle of the lag. -/

namespace Synapse32

/-! ## What a CSR instruction asks for -/

/-- How a CSR instruction combines its operand with a bit of the CSR. -/
inductive CsrOp
  | write | set | clear
  deriving DecidableEq, Repr

namespace CsrOp

/-- The operation of a CSR instruction. -/
def ofInstr : InstrId → CsrOp
  | .csrrs | .csrrsi => .set
  | .csrrc | .csrrci => .clear
  | _ => .write

/-- A bit of the CSR after the operation: written, set or cleared by the operand's. -/
def bit : CsrOp → Bool → Bool → Bool
  | .write, operand, _ => operand
  | .set, operand, old => old || operand
  | .clear, operand, old => old && !operand

end CsrOp

namespace ExecutionUnit

/-- The operand of a CSR instruction: `rs1`, or the immediate in its place. -/
def csrOperand (x : ExIn) : Word :=
  match x.instrId with
  | .csrrwi | .csrrsi | .csrrci => x.rs1Addr.setWidth 32
  | _ => rs1Value x

/-- **The word a CSR instruction writes**, bit by bit. -/
theorem getLsbD_csrWriteData {x : ExIn} (h : csrWriteEnable x = true) {j : ℕ} (hj : j < 32) :
    (csrWriteData x).getLsbD j =
      (CsrOp.ofInstr x.instrId).bit ((csrOperand x).getLsbD j) (x.csrRmwData.getLsbD j) := by
  unfold csrWriteEnable csrExecInst csrExec at h
  unfold csrWriteData csrExecInst csrExec csrOperand
  revert h
  cases x.instrId
  case csrrw | csrrwi => exact fun _ => rfl
  case csrrs | csrrsi =>
    intro _
    exact BitVec.getLsbD_or
  case csrrc | csrrci =>
    intro _
    simp [CsrOp.ofInstr, CsrOp.bit, hj]
  all_goals exact fun h => absurd h Bool.false_ne_true

end ExecutionUnit

namespace CsrFile

/-- What software has left pending. -/
structure Pending where
  ssip : Bool
  stip : Bool
  seip : Bool
  deriving DecidableEq, Repr

/-- The software-pending bits. -/
def pending (f : CsrFile) : Pending where
  ssip := f.ssipSoftwarePending
  stip := f.stipSoftwarePending
  seip := f.seipSoftwarePending

/-- The bits of a write to `mip`. -/
def Pending.ofMip (d : Word) : Pending := ⟨d.getLsbD 1, d.getLsbD 5, d.getLsbD 9⟩

/-- Each bit after a CSR instruction on `mip`. -/
def Pending.apply (op : CsrOp) (operand : Word) (p : Pending) : Pending where
  ssip := op.bit (operand.getLsbD 1) p.ssip
  stip := op.bit (operand.getLsbD 5) p.stip
  seip := op.bit (operand.getLsbD 9) p.seip

/-- An action writes `mip` or `sip`. -/
def setsPending : CsrAction → Bool
  | .write a _ => a == 0x344#12 || a == 0x144#12
  | _ => false

/-- A cycle that writes nothing keeps what software left pending. -/
theorem pending_tick (f : CsrFile) (i : CsrIn) : (f.tick i).pending = f.pending := rfl

/-- A write of `mip` sets both bits. -/
theorem pending_csrWrite_mip (f : CsrFile) (d : Word) :
    (f.csrWrite 0x344#12 d).pending = .ofMip d := rfl

/-- A write of `sip` sets SSIP alone. -/
theorem pending_csrWrite_sip (f : CsrFile) (d : Word) :
    (f.csrWrite 0x144#12 d).pending = { f.pending with ssip := d.getLsbD 1 } := rfl

/-- Only a write of `mip` or `sip` changes the software-pending bits. -/
theorem pending_perform (f : CsrFile) {a : CsrAction} (h : setsPending a = false) :
    (f.perform a).pending = f.pending := by
  cases a with
  | trap t =>
    change (f.enter t).pending = _
    rw [enter]
    exact (apply_ite CsrFile.pending _ _ _).trans (ite_self _)
  | mret => rfl
  | sret => rfl
  | write r d =>
    obtain ⟨hmip, hsip⟩ : r ≠ 0x344#12 ∧ r ≠ 0x144#12 := by simpa [setsPending] using h
    have hssip : (f.csrWrite r d).ssipSoftwarePending = f.ssipSoftwarePending := by
      unfold csrWrite
      simp only [apply_ite CsrFile.ssipSoftwarePending, if_neg hmip, if_neg hsip, ite_self]
    have hstip : (f.csrWrite r d).stipSoftwarePending = f.stipSoftwarePending := by
      unfold csrWrite
      simp only [apply_ite CsrFile.stipSoftwarePending, if_neg hmip, ite_self]
    have hseip : (f.csrWrite r d).seipSoftwarePending = f.seipSoftwarePending := by
      unfold csrWrite
      simp only [apply_ite CsrFile.seipSoftwarePending, if_neg hmip, ite_self]
    change (f.csrWrite r d).pending = _
    rw [pending, hssip, hstip, hseip, pending]
  | none => rfl

/-- No action writes the register `mip`. -/
theorem mip_perform (f : CsrFile) (a : CsrAction) : (f.perform a).mip = f.mip := by
  cases a with
  | trap t =>
    change (f.enter t).mip = _
    rw [enter]
    exact (apply_ite CsrFile.mip _ _ _).trans (ite_self _)
  | mret => rfl
  | sret => rfl
  | write r d =>
    change (f.csrWrite r d).mip = _
    unfold csrWrite
    simp only [apply_ite CsrFile.mip, ite_self]
  | none => rfl

/-- `mip` lags the software bits by a cycle. -/
theorem mip_tick (f : CsrFile) (i : CsrIn) :
    (f.tick i).mip.getLsbD 1 = f.ssipSoftwarePending ∧
      (f.tick i).mip.getLsbD 5 = f.stipSoftwarePending := by
  constructor <;> simp [tick]

end CsrFile

namespace RiscvCpu

variable {s : RiscvCpu} {i : CpuIn}

/-! ## The instruction in EX sees no lag -/

/-- What the instruction in EX reads in `mip` is what software left pending. -/
def MipSettled (s : RiscvCpu) : Prop :=
  s.idEx.instrValid = true →
    s.csrFile.mip.getLsbD 1 = s.csrFile.ssipSoftwarePending ∧
      s.csrFile.mip.getLsbD 5 = s.csrFile.stipSoftwarePending

/-- **Step.** A write that would leave `mip` behind empties EX. -/
theorem MipSettled.next {programPc : Word} (hf : FrontInv s programPc) :
    MipSettled (next s i) := by
  intro hv
  rw [next_csrFile, CsrFile.mip_perform]
  have htick := CsrFile.mip_tick s.csrFile (csrIn s i)
  cases hset : CsrFile.setsPending (s.csrFile.action (csrIn s i))
  · have hkeep := (CsrFile.pending_perform (s.csrFile.tick (csrIn s i)) hset).trans
      (CsrFile.pending_tick _ _)
    rw [htick.1, htick.2]
    exact ⟨(congrArg CsrFile.Pending.ssip hkeep).symm, (congrArg CsrFile.Pending.stip hkeep).symm⟩
  · cases ha : s.csrFile.action (csrIn s i) with
    | write r d =>
      obtain ⟨-, -, hwe, hact, -, -⟩ := of_action_write ha
      have hempty := (emptied_of_jSignal (jSignal_of_csrWrite hf hact hwe)).2
      exact absurd (hempty.symm.trans hv) Bool.false_ne_true
    | _ =>
      rw [ha] at hset
      exact absurd hset Bool.false_ne_true

/-- **Run lemma.** `mip` is settled before every cycle. -/
theorem mipSettled_run (ins : ℕ → CpuIn) (n : ℕ) : MipSettled (run ins n) := by
  cases n with
  | zero => exact nofun
  | succ n => exact MipSettled.next (frontInv_runFrom idle_reset n)

/-! ## CSR instructions that retire -/

/-- A CSR instruction that writes `addr` leaves EX. CSRRS and CSRRC of `x0` do not write. -/
def commitsCsrWrite (s : RiscvCpu) (i : CpuIn) (addr : BitVec 12) : Bool :=
  issues s i && csrWriteEnable s i && csrAddr s == addr

/-- The operation of the CSR instruction in EX. -/
def csrOp (s : RiscvCpu) : CsrOp := CsrOp.ofInstr s.idEx.dec.instrId

/-- The operand of the CSR instruction in EX. -/
def csrOperand (s : RiscvCpu) (i : CpuIn) : Word := ExecutionUnit.csrOperand (exIn s i)

/-- A CSR write that the CSR file performs is that of an instruction that leaves EX. -/
theorem issues_of_action_write {programPc : Word} (hf : FrontInv s programPc) {a : BitVec 12}
    {d : Word} (h : s.csrFile.action (csrIn s i) = .write a d) : issues s i = true := by
  obtain ⟨hint, hsync, hwe, ha, -, -⟩ := of_action_write h
  obtain ⟨hs, hm, hpf⟩ := quiet_of_not_synchronousException hsync
  have hs : synchronousExceptionTaken s i = false := hs
  simp [issues, instrValid_of_csrWriteEnable hf hwe, ha, exMemFlush, hm, hpf, hs, hint]

/-- The CSR file performs a write of an existing CSR exactly when the instruction leaves EX. -/
theorem commitsCsrWrite_iff {programPc : Word} (hf : FrontInv s programPc) {a : BitVec 12}
    (hv : CsrFile.csrValid a = true) :
    commitsCsrWrite s i a = true ↔
      s.csrFile.action (csrIn s i) = .write a (ExecutionUnit.csrWriteData (exIn s i)) := by
  constructor
  · intro h
    simp only [commitsCsrWrite, Bool.and_eq_true, beq_iff_eq] at h
    obtain ⟨⟨hi, hw⟩, rfl⟩ := h
    exact action_of_csrWrite hi hw hv
  · intro h
    obtain ⟨-, -, hwe, -, haddr, -⟩ := of_action_write h
    simp [commitsCsrWrite, issues_of_action_write hf h, hwe, haddr]

/-- **A CSR instruction that leaves EX retires** in the next cycle: it accesses no memory. -/
theorem retires_of_commitsCsrWrite {l : Ledger} (hf : FrontInv s l.programPc) {a : BitVec 12}
    (h : commitsCsrWrite s i a = true) (j : CpuIn) :
    memWait (next s i) j = false ∧ memStagePageFaultTaken (next s i) j = false := by
  simp only [commitsCsrWrite, Bool.and_eq_true] at h
  obtain ⟨⟨hi, hw⟩, -⟩ := h
  have hmem : (next s i).exMem = executeOut s i := by
    rcases mem_cases hf (i := i) with ⟨-, hi', -⟩ | ⟨-, -, hx⟩ | ⟨-, hi', -⟩
    · exact absurd (hi'.symm.trans hi) Bool.false_ne_true
    · exact hx
    · exact absurd (hi'.symm.trans hi) Bool.false_ne_true
  have hw : (csrExec s.idEx.dec.instrId (ExecutionUnit.rs1Value (exIn s i)) s.idEx.dec.rs1
    (csrReadData s i) (csrRmwData s i)).csrWriteEnable = true := hw
  have hid : (next s i).exMem.instrId = s.idEx.dec.instrId := by rw [hmem]; rfl
  have hnone : memRdEn (next s i) = false ∧ memWrEn (next s i) = false ∧
      isAmoW (next s i) = false := by
    unfold memRdEn memWrEn atomicReadEnable atomicWriteEnable exMemStdStoreReq isLrW isScW isAmoW
    rw [hid]
    revert hw
    cases s.idEx.dec.instrId <;> first
      | exact fun _ => ⟨rfl, rfl, rfl⟩
      | exact fun h => absurd h Bool.false_ne_true
  simp [memWait, memStagePageFaultTaken, memStageLoadPageFault, memStageStorePageFault,
    dataWriteIntent, hnone]

/-! ## The software-pending bits after a cycle -/

/-- **Without a write of `mip` or `sip` the bits stay.** -/
theorem pending_next {programPc : Word} (hf : FrontInv s programPc)
    (hmip : commitsCsrWrite s i 0x344#12 = false) (hsip : commitsCsrWrite s i 0x144#12 = false) :
    (next s i).csrFile.pending = s.csrFile.pending := by
  rw [next_csrFile]
  refine (CsrFile.pending_perform _ ?_).trans (CsrFile.pending_tick _ _)
  by_contra hset
  cases ha : s.csrFile.action (csrIn s i) with
  | write r d =>
    obtain ⟨-, -, hwe, -, rfl, -⟩ := of_action_write ha
    have hi := issues_of_action_write hf ha
    rw [ha] at hset
    simp only [CsrFile.setsPending, Bool.not_eq_false, Bool.or_eq_true, beq_iff_eq] at hset
    rcases hset with haddr | haddr
    · simp [commitsCsrWrite, hi, hwe, haddr] at hmip
    · simp [commitsCsrWrite, hi, hwe, haddr] at hsip
  | _ =>
    rw [ha] at hset
    exact hset rfl

/-- **A CSR instruction on `mip`** does to each of the bits what its operand says. -/
theorem pending_next_of_mip {programPc : Word} (hf : FrontInv s programPc) (hm : MipSettled s)
    (h : commitsCsrWrite s i 0x344#12 = true) :
    (next s i).csrFile.pending = s.csrFile.pending.apply (csrOp s) (csrOperand s i) := by
  rw [next_csrFile, (commitsCsrWrite_iff hf (by decide)).mp h]
  simp only [commitsCsrWrite, Bool.and_eq_true, beq_iff_eq] at h
  obtain ⟨⟨-, hwe⟩, haddr⟩ := h
  obtain ⟨h1, h5⟩ := hm (instrValid_of_csrWriteEnable hf hwe)
  have hrmw : csrRmwData s i = setBit s.csrFile.mip 9 s.csrFile.seipSoftwarePending := by
    rw [csrRmwData, haddr, csrReadEnable_of_csrWriteEnable hwe]
    rfl
  -- The bits 1 and 5 come from the lagging register, bit 9 from the software bit itself.
  have hbit : ∀ {j}, j < 32 → (ExecutionUnit.csrWriteData (exIn s i)).getLsbD j =
      (csrOp s).bit ((csrOperand s i).getLsbD j) ((csrRmwData s i).getLsbD j) :=
    fun hj => ExecutionUnit.getLsbD_csrWriteData hwe hj
  rw [CsrFile.perform, CsrFile.pending_csrWrite_mip, CsrFile.Pending.ofMip, hbit (by decide),
    hbit (by decide), hbit (by decide), hrmw,
    getLsbD_setBit _ (by decide), getLsbD_setBit _ (by decide), getLsbD_setBit _ (by decide),
    if_neg (by decide), if_neg (by decide), if_pos rfl, h1, h5]
  rfl

/-- **A CSR instruction on `sip`** does so to SSIP alone. -/
theorem pending_next_of_sip {programPc : Word} (hf : FrontInv s programPc) (hm : MipSettled s)
    (h : commitsCsrWrite s i 0x144#12 = true) :
    (next s i).csrFile.pending =
      { s.csrFile.pending with
        ssip := (csrOp s).bit ((csrOperand s i).getLsbD 1) s.csrFile.pending.ssip } := by
  rw [next_csrFile, (commitsCsrWrite_iff hf (by decide)).mp h]
  simp only [commitsCsrWrite, Bool.and_eq_true, beq_iff_eq] at h
  obtain ⟨⟨-, hwe⟩, haddr⟩ := h
  obtain ⟨h1, -⟩ := hm (instrValid_of_csrWriteEnable hf hwe)
  have hrmw : csrRmwData s i = s.csrFile.mip &&& CsrFile.sInterruptMask := by
    rw [csrRmwData, haddr, csrReadEnable_of_csrWriteEnable hwe]
    rfl
  have hmask : CsrFile.sInterruptMask.getLsbD 1 = true := by decide
  have hbit : (ExecutionUnit.csrWriteData (exIn s i)).getLsbD 1 =
      (csrOp s).bit ((csrOperand s i).getLsbD 1) ((csrRmwData s i).getLsbD 1) :=
    ExecutionUnit.getLsbD_csrWriteData hwe (by decide)
  rw [CsrFile.perform, CsrFile.pending_csrWrite_sip, CsrFile.pending_tick, hbit, hrmw,
    BitVec.getLsbD_and, hmask, Bool.and_true, h1]
  rfl

/-- **The software-pending bits obey only software** in cycle `n`. They change only when a CSR
instruction on `mip` or `sip` leaves EX, which then retires, and as its own operand says: written
by CSRRW, set by CSRRS and cleared by CSRRC, `sip` reaching SSIP alone. -/
structure SoftwareOnly (ins : ℕ → CpuIn) (n : ℕ) : Prop where
  unchanged : commitsCsrWrite (run ins n) (ins n) 0x344#12 = false →
    commitsCsrWrite (run ins n) (ins n) 0x144#12 = false →
    (run ins (n + 1)).csrFile.pending = (run ins n).csrFile.pending
  mip : commitsCsrWrite (run ins n) (ins n) 0x344#12 = true →
    (run ins (n + 1)).csrFile.pending =
      (run ins n).csrFile.pending.apply (csrOp (run ins n)) (csrOperand (run ins n) (ins n))
  sip : commitsCsrWrite (run ins n) (ins n) 0x144#12 = true →
    (run ins (n + 1)).csrFile.pending =
      { (run ins n).csrFile.pending with
        ssip := (csrOp (run ins n)).bit ((csrOperand (run ins n) (ins n)).getLsbD 1)
          (run ins n).csrFile.pending.ssip }
  retires : ∀ a, commitsCsrWrite (run ins n) (ins n) a = true →
    memWait (run ins (n + 1)) (ins (n + 1)) = false ∧
      memStagePageFaultTaken (run ins (n + 1)) (ins (n + 1)) = false

/-- **The software-pending bits obey only software in every run**, whatever the interrupt lines do
and however long the pipeline waits. -/
theorem run_softwareOnly (ins : ℕ → CpuIn) (n : ℕ) : SoftwareOnly ins n := by
  have hf : FrontInv (run ins n) (ledger reset ins n).programPc := frontInv_runFrom idle_reset n
  have hm := mipSettled_run ins n
  exact ⟨pending_next hf, pending_next_of_mip hf hm, pending_next_of_sip hf hm,
    fun _ h => retires_of_commitsCsrWrite hf h _⟩

end RiscvCpu

end Synapse32
