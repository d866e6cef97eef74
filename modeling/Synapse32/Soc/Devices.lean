import Synapse32.Soc.Atomics

/-! # Device accesses of the SoC

As long as MEM takes no page fault in the middle of an access, and no TLB fill moves an AMO between
its two, the devices see the accesses that the instructions of the run complete at their addresses,
each once and in program order, and nothing else of the core. A fault in the middle of an access
breaks this: the read of a load that faults may still reach its device. -/

namespace Synapse32

/-- A data access at a physical address, as the devices see it. -/
def Access.events (pa : Word) : Access → List DeviceEvent
  | .read _ _ _ => if isDevice pa then [.read pa] else []
  | .write _ be data => if isDevice pa then [.write pa be data] else []

namespace RiscvCpu

variable {s : RiscvCpu} {i : CpuIn}

/-- The data of a write does not depend on the response of the cycle. -/
theorem wrDataOut_of_memWrEn (h : memWrEn s = true) (i' : CpuIn) :
    wrDataOut s i = wrDataOut s i' := by
  unfold wrDataOut
  cases ha : isAmoW s
  · rfl
  · have hp : s.amoWritePhase = true := by
      by_contra hp
      have hwr := (amoRead_facts ha (Bool.eq_false_of_not_eq_true hp)).2.1
      exact Bool.false_ne_true (hwr.symm.trans h)
    simp [amoOldWord, hp]

end RiscvCpu

namespace Top

section Cycle

variable (P : TopParams) (s : Top) (d : TopIn)

/-- **A page fault in the middle of an access**: MEM takes it while an AMO is in its write phase, or
while a read of the core is outstanding at the data cache. -/
def faultsMidway : Bool :=
  RiscvCpu.memStagePageFaultTaken s.cpu (cpuIn P s d) &&
    ((RiscvCpu.isAmoW s.cpu && s.cpu.amoWritePhase) || (DataBus.coreRead s.bus).isSome)

variable {P s d}

/-- What the core completes at a device is the access that it completes. -/
theorem deviceAnswers_eq :
    DataBus.deviceAnswers P.bus s.bus (dataIn P s d) =
      (completed P s d).flatMap fun x => x.1.events x.2 := by
  have hv : DataBus.cpuDataRvalid P.bus s.bus (dataIn P s d) = (cpuIn P s d).dataRvalidIn := rfl
  have hrd : (dataIn P s d).memReadEn = RiscvCpu.memRdEn s.cpu := rfl
  have hwe : (dataIn P s d).memWriteEn = RiscvCpu.memWrEn s.cpu := rfl
  unfold DataBus.deviceAnswers completed RiscvCpu.completedAccess DataBus.accessAddr
  rw [hv, hrd, hwe]
  cases (cpuIn P s d).dataRvalidIn
  · rfl
  cases hr : RiscvCpu.memRdEn s.cpu
  · cases hw : RiscvCpu.memWrEn s.cpu
    · rfl
    · have hdata : (dataIn P s d).writeData = RiscvCpu.wrDataOut s.cpu (cpuIn P s d) :=
        RiscvCpu.wrDataOut_of_memWrEn hw _
      have hbe : (dataIn P s d).byteEnable = RiscvCpu.writeByteEnable s.cpu := rfl
      rw [hdata, hbe]
      simp [Access.events]
  · rw [RiscvCpu.memWrEn_of_memRdEn hr]
    simp [Access.events]

/-! ## The load that waits -/

/-- **MEM waits for its read**: what has been granted a read, or is granted one now, and has no
answer stays in MEM. -/
theorem memWait_of_coreRead_next (h : DataBus.OwnerInv P.bus s.bus)
    (hm : faultsMidway P s d = false)
    (ha : DataBus.coreRead s.bus ≠ none → RiscvCpu.memRdEn s.cpu = true)
    (hr : DataBus.coreRead (next P s d).bus ≠ none) :
    RiscvCpu.memRdEn s.cpu = true ∧ (cpuIn P s d).dataRvalidIn = false ∧
      RiscvCpu.memWait s.cpu (cpuIn P s d) = true := by
  have hnext : DataBus.coreRead (next P s d).bus = _ := DataBus.coreRead_next h
  have hrv : (cpuIn P s d).dataRvalidIn = DataBus.cpuDataRvalid P.bus s.bus (dataIn P s d) := rfl
  rw [hnext] at hr
  cases hdv : DataBus.dcacheRvalid P.bus s.bus (dataIn P s d)
  swap
  · rw [hdv] at hr
    exact absurd rfl hr
  have hwaits : RiscvCpu.memRdEn s.cpu = true →
      RiscvCpu.memStagePageFaultTaken s.cpu (cpuIn P s d) = false →
      (cpuIn P s d).dataRvalidIn = false ∧ RiscvCpu.memWait s.cpu (cpuIn P s d) = true := by
    intro hrd hf
    have hwe : (dataIn P s d).memWriteEn = false := RiscvCpu.memWrEn_of_memRdEn hrd
    have hv : (cpuIn P s d).dataRvalidIn = false := by
      rw [hrv, DataBus.cpuDataRvalid, hwe, hdv]
      rfl
    exact ⟨hv, by simp [RiscvCpu.memWait, hrd, hv, hf]⟩
  rw [hdv, if_neg Bool.false_ne_true] at hr
  split at hr
  · rename_i hgo
    simp only [DataBus.cpuLoadGo, DataBus.cpuDataBusReq, Bool.and_eq_true,
      Bool.not_eq_true'] at hgo
    obtain ⟨⟨⟨⟨⟨hreq, -⟩, hwe⟩, -⟩, -⟩, -⟩ := hgo
    have hrd : RiscvCpu.memRdEn s.cpu = true := by
      simp only [DataBus.cpuDataReq, hwe, Bool.or_false, Bool.and_eq_true] at hreq
      exact hreq.1.1
    exact ⟨hrd, hwaits hrd (fault_of_cpuDataReq hreq)⟩
  · have hsome : (DataBus.coreRead s.bus).isSome = true := Option.isSome_iff_ne_none.mpr hr
    have hf : RiscvCpu.memStagePageFaultTaken s.cpu (cpuIn P s d) = false := by
      simpa [faultsMidway, hsome] using hm
    exact ⟨ha hr, hwaits (ha hr) hf⟩

/-- A load whose read is outstanding, or granted without an answer, stays in MEM. -/
theorem memRdEn_next (h : DataBus.OwnerInv P.bus s.bus) (hm : faultsMidway P s d = false)
    (ha : DataBus.coreRead s.bus ≠ none → RiscvCpu.memRdEn s.cpu = true)
    (hr : DataBus.coreRead (next P s d).bus ≠ none) :
    RiscvCpu.memRdEn (next P s d).cpu = true := by
  obtain ⟨hrd, hv, hw⟩ := memWait_of_coreRead_next h hm ha hr
  have hx : (next P s d).cpu.exMem = s.cpu.exMem := RiscvCpu.exMem_next_of_memWait hw
  have hp : (next P s d).cpu.amoWritePhase = s.cpu.amoWritePhase := by
    change (RiscvCpu.next s.cpu (cpuIn P s d)).amoWritePhase = _
    rw [RiscvCpu.next_amoWritePhase, hv]
    simp
  simp only [RiscvCpu.memRdEn, RiscvCpu.atomicReadEnable, RiscvCpu.isLrW, RiscvCpu.isAmoW, hx,
    hp] at hrd ⊢
  exact hrd

end Cycle

/-! ## Runs -/

section Runs

variable (P : TopParams) (m : PowerOn) (ins : ℕ → TopIn)

/-- What the devices have seen of the core before cycle `n`, in order. -/
def deviceLog (n : ℕ) : List DeviceEvent :=
  Clocked.log (next P) (reset m) ins (fun s d => DataBus.deviceFires P.bus s.bus (dataIn P s d)) n

variable {P m ins}

/-- **The load that waits.** -/
theorem memRdEn_of_coreRead {n : ℕ} (h : ∀ k < n, faultsMidway P (run P m ins k) (ins k) = false)
    (hr : DataBus.coreRead (run P m ins n).bus ≠ none) :
    RiscvCpu.memRdEn (run P m ins n).cpu = true := by
  induction n with
  | zero => exact absurd (DataBus.coreRead_of_not_bypass EngState.noConfusion) hr
  | succ n ih =>
    exact memRdEn_next (ownerInv_run n) (h n (by omega)) (ih fun k hk => h k (by omega)) hr

variable (P m ins) in
/-- What the core has been granted for the devices before cycle `n`, in order. -/
def grantLog (n : ℕ) : List DeviceEvent :=
  Clocked.log (next P) (reset m) ins (fun s d => DataBus.deviceGrants P.bus s.bus (dataIn P s d)) n

/-- **The devices see what is granted**, whatever the page faults. -/
theorem deviceLog_eq (n : ℕ) :
    deviceLog P m ins n ++ DataBus.pending (run P m ins n).bus = grantLog P m ins n := by
  have hstep : ∀ k < n, DataBus.pending (run P m ins k).bus ++
      DataBus.deviceGrants P.bus (run P m ins k).bus (dataIns P m ins k) =
        DataBus.deviceFires P.bus (run P m ins k).bus (dataIns P m ins k) ++
          DataBus.pending (run P m ins (k + 1)).bus :=
    fun k _ => DataBus.pending_next (ownerInv_run k)
  exact (@Clocked.log_conserved Top TopIn (next P) (reset m) DeviceEvent ins
    (fun s => DataBus.pending s.bus) (fun s d => DataBus.deviceGrants P.bus s.bus (dataIn P s d))
    (fun s d => DataBus.deviceFires P.bus s.bus (dataIn P s d)) n hstep).symm

/-- **What is granted is completed**, up to the read that is outstanding. -/
theorem grantLog_eq {n : ℕ} (h : ∀ k < n, faultsMidway P (run P m ins k) (ins k) = false) :
    grantLog P m ins n = ((translatedLog P m ins n).flatMap fun x => x.1.events x.2) ++
      DataBus.outstanding (run P m ins n).bus := by
  have hlog : ∀ n, Clocked.log (next P) (reset m) ins
      (fun s d => DataBus.deviceAnswers P.bus s.bus (dataIn P s d)) n =
        (translatedLog P m ins n).flatMap fun x => x.1.events x.2 := by
    intro n
    induction n with
    | zero => rfl
    | succ n ih =>
      rw [Clocked.log_succ, ih, translatedLog_succ, List.flatMap_append, deviceAnswers_eq]
      rfl
  have hstep : ∀ k < n, DataBus.outstanding (run P m ins k).bus ++
      DataBus.deviceGrants P.bus (run P m ins k).bus (dataIns P m ins k) =
        DataBus.deviceAnswers P.bus (run P m ins k).bus (dataIns P m ins k) ++
          DataBus.outstanding (run P m ins (k + 1)).bus := by
    intro k hk
    refine DataBus.outstanding_next (ownerInv_run k) fun hr => ?_
    have hrd := memRdEn_of_coreRead (fun j hj => h j (by omega)) hr
    exact ⟨hrd, RiscvCpu.memWrEn_of_memRdEn hrd⟩
  rw [← hlog]
  exact @Clocked.log_conserved Top TopIn (next P) (reset m) DeviceEvent ins
    (fun s => DataBus.outstanding s.bus)
    (fun s d => DataBus.deviceGrants P.bus s.bus (dataIn P s d))
    (fun s d => DataBus.deviceAnswers P.bus s.bus (dataIn P s d)) n hstep

end Runs

end Top

end Synapse32
