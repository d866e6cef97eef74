import Synapse32.Core.Standstill
import Synapse32.Mmu.Progress
import Synapse32.Soc.Execution

/-! # The SoC never gets stuck

Whatever runs on it, with traps, interrupts and translation: a core that stands still for ever would
wait for an access in MEM, for a fence or for a fetch. Each waits for a translation first, and each
translation for the data side; all of them answer in the end. -/

namespace Synapse32

/-! ## Faults of the MMU -/

namespace Sv32Mmu

variable (u : Sv32Mmu) (x : MmuIn)

/-- Only a read is reported as a load page fault. -/
theorem dataRdEn_of_loadPageFault (h : dataLoadPageFault u x = true) : x.dataRdEn = true := by
  simp only [dataLoadPageFault, DataCheckIn.loadPageFault, dataCheckIn, Bool.and_eq_true,
    Bool.or_eq_true] at h
  rcases h.2 with h | h
  · exact h.2.1
  · exact h.1.2

/-- Only a write is reported as a store page fault. -/
theorem dataWrReq_of_storePageFault (h : dataStorePageFault u x = true) : x.dataWrReq = true := by
  simp only [dataStorePageFault, DataCheckIn.storePageFault, dataCheckIn, Bool.and_eq_true,
    Bool.or_eq_true] at h
  rcases h.2 with h | h
  · exact h.2
  · exact h.2

end Sv32Mmu

namespace Top

variable {P : TopParams} {m : PowerOn} {ins : ℕ → TopIn}

/-! ## The walk port is served -/

/-- The registers after reset satisfy the invariant. -/
theorem progressInv_reset : DataBus.ProgressInv P.bus (reset m).bus :=
  DataBus.progressInv_reset _ _ _ _ _

/-- **Run lemma.** The invariant of the bus holds before every cycle. -/
theorem progressInv_run (n : ℕ) : DataBus.ProgressInv P.bus (run P m ins n).bus := by
  rw [run_bus]
  exact DataBus.progressInv_run progressInv_reset alignedAccess n

/-- **An accepted walk owns the data port.** -/
theorem walkOwner_of_accepted (n : ℕ) (ha : (run P m ins n).mmu.walk.accepted = true) :
    (run P m ins n).bus.walkOwner = true := by
  induction n with
  | zero => exact absurd ha Bool.false_ne_true
  | succ n ih =>
    set s := run P m ins n with hs
    set x := dataIns P m ins n
    change (Sv32Mmu.nextWalk s.mmu (mmuIns P m ins n)).accepted = true at ha
    obtain ⟨hst, hv⟩ := Sv32Mmu.nextWalk_accepted ha
    rw [Sv32Mmu.nextWalk_of_wait hst hv, Bool.or_eq_true] at ha
    -- It was accepted before, or is granted in this cycle.
    have howns : DataBus.walkOwns P.bus s.bus x = true := by
      rw [DataBus.walkOwns, Bool.or_eq_true]
      rcases ha with ha | hg
      · exact .inl (ih ha)
      · have hg : (DataBus.dcacheGnt P.bus s.bus x && DataBus.walkSel P.bus s.bus x) = true := hg
        rw [Bool.and_comm] at hg
        exact .inr hg
    have hrv : DataBus.dcacheRvalid P.bus s.bus x = false := by
      have hv : (DataBus.dcacheRvalid P.bus s.bus x && DataBus.walkOwns P.bus s.bus x) = false := hv
      rwa [howns, Bool.and_true] at hv
    exact (DataBus.owner_next (progressInv_run n).toOwnerInv hrv).1.trans howns

/-- **Accepted walks are answered.** -/
theorem walk_answered (hl : P.bus.memLatency ≤ 256) {n : ℕ}
    (ha : (run P m ins n).mmu.walk.accepted = true) :
    ∃ k ≥ n, (mmuIns P m ins k).walkRvalid = true := by
  have ho := walkOwner_of_accepted n ha
  rw [run_bus] at ho
  obtain ⟨k, hk, hv⟩ := DataBus.walkOwner_answered hl progressInv_reset rfl alignedAccess rfl ho
  rw [← run_bus] at hv
  exact ⟨k, hk, hv⟩

/-! ## A SoC whose core stands still -/

variable (P m ins) in
/-- From cycle `n0` on the core stands still. -/
def Stuck (n0 : ℕ) : Prop :=
  ∀ n ≥ n0, RiscvCpu.Standstill (run P m ins n).cpu (cpuIns P m ins n)

section Stuck

variable {n0 n : ℕ} (hst : Stuck P m ins n0)
include hst

/-- A core that is stuck keeps what translation and protection read. -/
theorem Stuck.privilege (hn : n0 ≤ n) :
    RiscvCpu.SamePrivilege (run P m ins n0).cpu (run P m ins n).cpu := by
  induction n, hn using Nat.le_induction with
  | base => exact .refl _
  | succ n hn ih =>
    obtain ⟨programPc, hf⟩ := @frontInv_run P m ins n
    exact ih.trans ((hst n hn).privilege hf)

/-- The fence that flushes the TLB does not come. -/
theorem Stuck.flushTlb (hn : n0 ≤ n) : (mmuIns P m ins n).flushTlb = false :=
  (hst n hn).flushes.1

/-- A core that is stuck keeps the root. -/
theorem Stuck.satp (hn : n0 ≤ n) :
    (mmuIns P m ins n).satp = (run P m ins n0).cpu.csrFile.satp :=
  (hst.privilege hn).satp

/-- **A walk request is granted** while the core presents no access. -/
theorem Stuck.walk_granted (hl : P.bus.memLatency ≤ 256) (hn : n0 ≤ n)
    (hreq : Sv32Mmu.walkReq (run P m ins n).mmu = true)
    (hquiet : (∀ k ≥ n, (run P m ins k).mmu.walk = (run P m ins n).mmu.walk ∧
      (mmuIns P m ins k).walkRvalid = false) →
      ∀ k ≥ n, DataBus.cpuDataBusReq (dataIns P m ins k) = false) :
    ∃ k ≥ n, Sv32Mmu.Moves (mmuIns P m ins) k := by
  by_contra hnone
  have hreq' := hreq
  rw [Sv32Mmu.walkReq, Bool.and_eq_true, bne_iff_ne, Bool.not_eq_true'] at hreq'
  obtain ⟨hs, hacc⟩ := hreq'
  -- The walk stays as it is.
  have hstay : ∀ k ≥ n, (run P m ins k).mmu.walk = (run P m ins n).mmu.walk ∧
      (mmuIns P m ins k).walkRvalid = false ∧ (mmuIns P m ins k).walkGnt = false := by
    have hnot : ∀ k ≥ n, (run P m ins k).mmu.walk = (run P m ins n).mmu.walk →
        (mmuIns P m ins k).walkRvalid = false ∧ (mmuIns P m ins k).walkGnt = false := by
      intro k hk hw
      have hm : ¬ Sv32Mmu.Moves (mmuIns P m ins) k := fun hm => hnone ⟨k, hk, hm⟩
      rw [Sv32Mmu.Moves, ← run_mmu, hw, hacc] at hm
      simpa using hm
    intro k hk
    induction k, hk using Nat.le_induction with
    | base => exact ⟨rfl, hnot n le_rfl rfl⟩
    | succ k hk ih =>
      obtain ⟨hw, hv, hg⟩ := ih
      have hnext : (run P m ins (k + 1)).mmu.walk = (run P m ins n).mmu.walk := by
        have hnext := Sv32Mmu.next_of_wait (u := (run P m ins k).mmu) (x := mmuIns P m ins k)
          (by rw [hw]; exact hs) (hst.flushTlb (hn.trans hk)) hv
        rw [hg, Bool.or_false] at hnext
        exact hnext.trans hw
      exact ⟨hnext, hnot (k + 1) (by omega) hnext⟩
  have hheld : ∀ k ≥ n, DataBus.cpuDataBusReq (dataIns P m ins k) = false ∧
      (dataIns P m ins k).walkReq = true ∧ (dataIns P m ins k).walkAddr =
        Sv32Mmu.walkAddr (run P m ins n).mmu (mmuRequest (run P m ins n)) := by
    intro k hk
    obtain ⟨hw, -, -⟩ := hstay k hk
    refine ⟨hquiet (fun j hj => ⟨(hstay j hj).1, (hstay j hj).2.1⟩) k hk, ?_, ?_⟩
    · change Sv32Mmu.walkReq (run P m ins k).mmu = true
      rw [Sv32Mmu.walkReq, hw]
      exact hreq
    · change Sv32Mmu.walkAddr (run P m ins k).mmu (mmuRequest (run P m ins k)) = _
      have hsatp : (mmuRequest (run P m ins k)).satp = (mmuRequest (run P m ins n)).satp :=
        (hst.satp (hn.trans hk)).trans (hst.satp hn).symm
      rw [Sv32Mmu.walkAddr, Sv32Mmu.walkAddr, hw, hsatp]
  obtain ⟨k, hk, hg, -⟩ := DataBus.walk_answered hl progressInv_reset rfl alignedAccess
    fun k hk _ => hheld k hk
  rw [← run_bus] at hg
  exact Bool.false_ne_true ((hstay k hk).2.2.symm.trans hg)

/-! ### An access in MEM -/

section Held

variable (hn : n0 ≤ n)
  (hreq : (RiscvCpu.memRdEn (run P m ins n).cpu || RiscvCpu.memWrEn (run P m ins n).cpu) = true)
  (hsame : ∀ k ≥ n, RiscvCpu.SameAccess (run P m ins n).cpu (run P m ins k).cpu)
include hn hreq hsame

/-- The data side of the MMU is asked for the same address for ever. -/
theorem Stuck.data_holds {k : ℕ} (hk : n ≤ k) : (mmuIns P m ins k).Holds .data
    (run P m ins n).cpu.exMem.memAddr (translatedDataAccess (run P m ins n)) where
  addr := by
    have haddr : dataMemAddr (run P m ins k) = (run P m ins k).cpu.exMem.memAddr := ite_self _
    exact haddr.trans (congrArg ExMem.memAddr (hsame k hk).exMem)
  translates := by
    have hp := ((hst.privilege (hn.trans hk)).dataMmuEnable).trans
      (hst.privilege hn).dataMmuEnable.symm
    change translatedDataAccess (run P m ins k) = _
    rw [translatedDataAccess, translatedDataAccess, hp, (hsame k hk).memRdEn, (hsame k hk).memWrEn]
  flush := hst.flushTlb (hn.trans hk)
  asks _ := by
    change (RiscvCpu.memRdEn (run P m ins k).cpu ||
      RiscvCpu.dataWriteIntent (run P m ins k).cpu) = true
    rw [(hsame k hk).dataWriteIntent, (hsame k hk).memRdEn, RiscvCpu.dataWriteIntent,
      ← Bool.or_assoc, hreq, Bool.true_or]
  alone h := by cases h

/-- **Its translation settles.** -/
theorem Stuck.data_settles (hl : P.bus.memLatency ≤ 256) :
    ∃ k ≥ n, Sv32Mmu.Settled .data (run P m ins k).mmu (mmuIns P m ins k) := by
  have hserved : Sv32Mmu.WalksServed (mmuIns P m ins) .data n := by
    refine ⟨fun k hk hwalk hready => ?_, fun k _ _ hacc => ?_⟩
    · rw [← run_mmu] at hwalk hready
      have hready := hready rfl
      refine hst.walk_granted hl (hn.trans hk) hwalk fun hstay j hj => ?_
      have hs : (run P m ins k).mmu.walk.state ≠ .idle := by
        rw [Sv32Mmu.walkReq, Bool.and_eq_true, bne_iff_ne] at hwalk
        exact hwalk.1
      -- An access without its translation is not presented.
      have hnot : ∀ j ≥ k,
          Sv32Mmu.ready (run P m ins j).mmu (mmuIns P m ins j) .data = false := by
        intro j hj
        induction j, hj using Nat.le_induction with
        | base => exact hready
        | succ j hj ih =>
          have hdist : Sv32Mmu.Distinct (run P m ins j).mmu := by
            rw [run_mmu]
            exact Sv32Mmu.distinct_run _ _
          obtain ⟨hw, hv⟩ := hstay j hj
          exact Sv32Mmu.ready_of_wait (hst.data_holds hn hreq hsame (hk.trans hj))
            (hst.data_holds hn hreq hsame (by omega)) (hdist.walk (by rw [hw]; exact hs)).1 hv ih
      have hnj : (dataIns P m ins j).dataReady = false := hnot j hj
      rw [DataBus.cpuDataBusReq, hnj, Bool.and_false]
    · rw [← run_mmu] at hacc
      exact walk_answered hl hacc
  obtain ⟨k, hk, hset⟩ := Sv32Mmu.exists_settled
    (fun k hk => hst.data_holds hn hreq hsame hk) hserved
  rw [← run_mmu] at hset
  exact ⟨k, hk, hset⟩

/-- Once it is translated it is presented. -/
theorem Stuck.presented {k : ℕ} (hk : n ≤ k)
    (hready : Sv32Mmu.ready (run P m ins k).mmu (mmuIns P m ins k) .data = true) :
    DataBus.cpuDataBusReq (dataIns P m ins k) = true := by
  have hnf := (hst k (hn.trans hk)).noPageFault.1
  have hrd : (RiscvCpu.memRdEn (run P m ins k).cpu || RiscvCpu.memWrEn (run P m ins k).cpu) =
      true := by
    rw [(hsame k hk).memRdEn, (hsame k hk).memWrEn]
    exact hreq
  rw [RiscvCpu.memStagePageFaultTaken, Bool.or_eq_false_iff] at hnf
  have hlpf : cpuLoadPageFault (run P m ins k) = false := by
    by_contra hf
    have hf := Bool.eq_true_of_not_eq_false hf
    have hr : RiscvCpu.memRdEn (run P m ins k).cpu = true :=
      Sv32Mmu.dataRdEn_of_loadPageFault _ _ hf
    have hl : RiscvCpu.memStageLoadPageFault (run P m ins k).cpu (cpuIns P m ins k) = true := by
      rw [RiscvCpu.memStageLoadPageFault, hr, Bool.and_true]
      exact hf
    exact Bool.false_ne_true (hnf.1.symm.trans hl)
  have hspf : cpuStorePageFault (run P m ins k) = false := by
    by_contra hf
    have hf := Bool.eq_true_of_not_eq_false hf
    have hr : RiscvCpu.dataWriteIntent (run P m ins k).cpu = true :=
      Sv32Mmu.dataWrReq_of_storePageFault _ _ hf
    have hl : RiscvCpu.memStageStorePageFault (run P m ins k).cpu (cpuIns P m ins k) = true := by
      rw [RiscvCpu.memStageStorePageFault, hr, Bool.and_true]
      exact hf
    exact Bool.false_ne_true (hnf.2.symm.trans hl)
  have hready : mmuDataReady (run P m ins k) = true := hready
  change ((RiscvCpu.memRdEn (run P m ins k).cpu || RiscvCpu.memWrEn (run P m ins k).cpu) &&
    !cpuLoadPageFault (run P m ins k) && !cpuStorePageFault (run P m ins k) &&
    mmuDataReady (run P m ins k)) = true
  rw [hrd, hlpf, hspf, hready]
  rfl

/-- From then on it is presented at one physical address. -/
theorem Stuck.presents (hl : P.bus.memLatency ≤ 256) :
    ∃ k ≥ n, ∀ j ≥ k, DataBus.Presents (dataIns P m ins j) (physDataAddr (run P m ins k))
      (RiscvCpu.memWrEn (run P m ins n).cpu) := by
  obtain ⟨k, hk, hset⟩ := hst.data_settles hn hreq hsame hl
  -- The walker does not get the port while an access is presented.
  have hstays : ∀ j ≥ k, Sv32Mmu.Settled .data (run P m ins j).mmu (mmuIns P m ins j) ∧
      (run P m ins j).mmu.tlb = (run P m ins k).mmu.tlb := by
    intro j hj
    induction j, hj using Nat.le_induction with
    | base => exact ⟨hset, rfl⟩
    | succ j hj ih =>
      obtain ⟨hsetj, htlb⟩ := ih
      have hq := hst.presented hn hreq hsame (hk.trans hj) hsetj.ready
      have hg : (mmuIns P m ins j).walkGnt = false := by
        change (DataBus.dcacheGnt _ _ _ && DataBus.walkSel P.bus (run P m ins j).bus
          (dataIns P m ins j)) = false
        rw [DataBus.walkSel_of_presents (progressInv_run j).toBusInv hq, Bool.and_false]
      rw [run_mmu] at hsetj
      have hquiet := Sv32Mmu.quiet_of_settled walkPort hsetj hg
      rw [← run_mmu] at hsetj hquiet
      obtain ⟨hset', htlb'⟩ := hsetj.next (hst.data_holds hn hreq hsame (hk.trans hj))
        (hst.data_holds hn hreq hsame (hk.trans (Nat.le_succ_of_le hj))) hquiet
      exact ⟨hset', htlb'.trans htlb⟩
  refine ⟨k, hk, fun j hj => ⟨?_, ?_, ?_⟩⟩
  · exact hst.presented hn hreq hsame (hk.trans hj) (hstays j hj).1.ready
  · have hj' := hst.data_holds hn hreq hsame (hk.trans hj)
    have hk' := hst.data_holds hn hreq hsame hk
    have haddr : (mmuRequest (run P m ins j)).dataVirtualAddr =
        (mmuRequest (run P m ins k)).dataVirtualAddr := hj'.addr.trans hk'.addr.symm
    have hon : (mmuRequest (run P m ins j)).dataTranslateEnable =
        (mmuRequest (run P m ins k)).dataTranslateEnable := hj'.translates.trans hk'.translates.symm
    change Sv32Mmu.dataPhysAddr (run P m ins j).mmu (mmuRequest (run P m ins j)) =
      Sv32Mmu.dataPhysAddr (run P m ins k).mmu (mmuRequest (run P m ins k))
    rw [Sv32Mmu.dataPhysAddr, Sv32Mmu.dataPhysAddr, Sv32Mmu.tlbDataPte, Sv32Mmu.tlbDataPte,
      Sv32Mmu.tlbDataMegapage, Sv32Mmu.tlbDataMegapage, haddr, hon, (hstays j hj).2]
  · exact (hsame j (hk.trans hj)).memWrEn

end Held

/-- **Data accesses are answered**, whatever is translated. -/
theorem Stuck.data_answered (hl : P.bus.memLatency ≤ 256) (hn : n0 ≤ n)
    (hreq : (RiscvCpu.memRdEn (run P m ins n).cpu || RiscvCpu.memWrEn (run P m ins n).cpu) =
      true) : ∃ k ≥ n, (cpuIns P m ins k).dataRvalidIn = true := by
  by_contra hnone
  have hno : ∀ k ≥ n, (cpuIns P m ins k).dataRvalidIn = false :=
    fun k hk => Bool.eq_false_of_not_eq_true fun hv => hnone ⟨k, hk, hv⟩
  -- So the access is held for ever.
  have hsame : ∀ k ≥ n, RiscvCpu.SameAccess (run P m ins n).cpu (run P m ins k).cpu := by
    intro k hk
    induction k, hk using Nat.le_induction with
    | base => exact .refl _
    | succ k hk ih =>
      have hrk : (RiscvCpu.memRdEn (run P m ins k).cpu || RiscvCpu.memWrEn (run P m ins k).cpu) =
          true := by
        rw [ih.memRdEn, ih.memWrEn]
        exact hreq
      have hw := RiscvCpu.memWait_of_noAnswer hrk (hno k hk) (hst k (hn.trans hk)).noPageFault.1
      exact ih.trans (RiscvCpu.sameAccess_next hw (hno k hk))
  obtain ⟨k1, hk1, hheld⟩ := hst.presents hn hreq hsame hl
  obtain ⟨k, hk, hv⟩ := DataBus.core_answered hl progressInv_reset rfl alignedAccess
    fun j hj _ => hheld j hj
  rw [← run_bus] at hv
  exact hnone ⟨k, hk1.trans hk, hv⟩

/-- **MEM empties**, and stays empty. -/
theorem Stuck.empties (hl : P.bus.memLatency ≤ 256) :
    ∃ k ≥ n0, ∀ j ≥ k, (run P m ins j).cpu.exMem.Inert := by
  have hcpu : ∀ k, (run P m ins k).cpu =
      RiscvCpu.runFrom RiscvCpu.reset (cpuIns P m ins) k := run_cpu
  have hdata : ∀ k ≥ n0, (RiscvCpu.memRdEn (RiscvCpu.runFrom RiscvCpu.reset (cpuIns P m ins) k) ||
      RiscvCpu.memWrEn (RiscvCpu.runFrom RiscvCpu.reset (cpuIns P m ins) k)) = true →
      ∃ j ≥ k, (cpuIns P m ins j).dataRvalidIn = true := by
    intro k hk hreq
    rw [← hcpu] at hreq
    exact hst.data_answered hl hk hreq
  obtain ⟨k, hk, hmove⟩ := RiscvCpu.exists_move_of_data hdata
  rw [← hcpu] at hmove
  refine ⟨k + 1, by omega, fun j hj => ?_⟩
  induction j, hj using Nat.le_induction with
  | base =>
    obtain ⟨programPc, hf⟩ := @frontInv_run P m ins k
    exact (hst k hk).inert hf hmove
  | succ j hj ih =>
    obtain ⟨programPc, hf⟩ := @frontInv_run P m ins j
    exact (hst j (by omega)).inert hf (RiscvCpu.memWait_of_inert ih)

/-! ### Behind an empty MEM -/

section Empty

variable (hn : n0 ≤ n) (hempty : ∀ k ≥ n, (run P m ins k).cpu.exMem.Inert)
include hn hempty

omit hst hn in
/-- The core presents nothing any more. -/
theorem quiet_of_inert {k : ℕ} (hk : n ≤ k) :
    RiscvCpu.memRdEn (run P m ins k).cpu = false ∧
      RiscvCpu.memWrEn (run P m ins k).cpu = false ∧
      DataBus.cpuDataBusReq (dataIns P m ins k) = false := by
  obtain ⟨hrd, hwr⟩ := RiscvCpu.memRequests_of_inert (hempty k hk)
  refine ⟨hrd, hwr, ?_⟩
  change ((RiscvCpu.memRdEn (run P m ins k).cpu || RiscvCpu.memWrEn (run P m ins k).cpu) &&
    !cpuLoadPageFault (run P m ins k) && !cpuStorePageFault (run P m ins k) &&
    mmuDataReady (run P m ins k)) = false
  rw [hrd, hwr]
  rfl

omit hst hn in
/-- **The store buffer drains**, for good. -/
theorem drains_of_inert (hl : P.bus.memLatency ≤ 256) :
    ∃ k ≥ n, ∀ j ≥ k, (run P m ins j).bus.buffer.empty = true ∧
      DataBus.drainReq P.bus (run P m ins j).bus (dataIns P m ins j) = false ∧
      (cpuIns P m ins j).storeBufferEmptyIn = true := by
  have hpush : ∀ k ≥ n,
      DataBus.storeBufPushReq P.bus (run P m ins k).bus (dataIns P m ins k) = false := by
    intro k hk
    rw [DataBus.storeBufPushReq, (quiet_of_inert hempty hk).2.2]
    rfl
  obtain ⟨k, hk, he⟩ := DataBus.exists_empty hl progressInv_reset rfl alignedAccess
    fun k (hk : k ≥ n) _ => (quiet_of_inert hempty hk).2.2
  rw [← run_bus] at he
  refine ⟨k, hk, fun j hj => ?_⟩
  have he : (run P m ins j).bus.buffer.empty = true := by
    induction j, hj using Nat.le_induction with
    | base => exact he
    | succ j hj ih =>
      exact DataBus.empty_next (progressInv_run j).toBusInv ih (hpush j (hk.trans hj))
  have hp := hpush j (hk.trans hj)
  exact ⟨he, by rw [DataBus.drainReq, he, hp]; rfl, DataBus.drained_of_empty he hp⟩

/-- **The fetch side of the MMU settles** while the PC stays, and then nothing walks any more. -/
theorem Stuck.fetch_settles (hl : P.bus.memLatency ≤ 256)
    (hpc : ∀ k ≥ n, (run P m ins k).cpu.pc = (run P m ins n).cpu.pc) :
    ∃ k ≥ n, ∀ j ≥ k, Sv32Mmu.walkReq (run P m ins j).mmu = false ∧
      mmuInstrReady (run P m ins j) = true ∧
      physInstrAddr (run P m ins j) = physInstrAddr (run P m ins k) := by
  have hheld : ∀ k ≥ n, (mmuIns P m ins k).Holds .instr (run P m ins n).cpu.pc
      (RiscvCpu.instrMmuEnable (run P m ins n).cpu) := by
    intro k hk
    obtain ⟨hrd, hwr, -⟩ := quiet_of_inert hempty hk
    refine ⟨hpc k hk, ?_, hst.flushTlb (hn.trans hk), (fun h => by cases h),
      fun _ => ?_⟩
    · exact ((hst.privilege (hn.trans hk)).instrMmuEnable).trans
        (hst.privilege hn).instrMmuEnable.symm
    · change (RiscvCpu.dataMmuEnable (run P m ins k).cpu &&
        (RiscvCpu.memWrEn (run P m ins k).cpu || RiscvCpu.memRdEn (run P m ins k).cpu) && _) = false
      rw [hrd, hwr, Bool.or_false, Bool.and_false, Bool.false_and]
  have hserved : Sv32Mmu.WalksServed (mmuIns P m ins) .instr n := by
    refine ⟨fun k hk hwalk _ => ?_, fun k _ _ hacc => ?_⟩
    · rw [← run_mmu] at hwalk
      exact hst.walk_granted hl (hn.trans hk) hwalk fun _ j hj =>
        (quiet_of_inert hempty (hk.trans hj)).2.2
    · rw [← run_mmu] at hacc
      exact walk_answered hl hacc
  obtain ⟨k, hk, hset⟩ := Sv32Mmu.exists_settled hheld hserved
  refine ⟨k, hk, fun j hj => ?_⟩
  obtain ⟨hsetj, htlb⟩ := Sv32Mmu.settled_of_quiet walkPort hheld hk hset hj fun h => by cases h
  rw [← run_mmu] at hsetj htlb
  have hidle : (run P m ins j).mmu.walk.state = .idle :=
    hsetj.rest.resolve_right fun h => by cases h.1
  refine ⟨by rw [Sv32Mmu.walkReq, hidle]; rfl, hsetj.ready, ?_⟩
  have hj' := hheld j (hk.trans hj)
  have hk' := hheld k hk
  have haddr : (mmuRequest (run P m ins j)).instrVirtualAddr =
      (mmuRequest (run P m ins k)).instrVirtualAddr := hj'.addr.trans hk'.addr.symm
  have hon : (mmuRequest (run P m ins j)).instrTranslateEnable =
      (mmuRequest (run P m ins k)).instrTranslateEnable := hj'.translates.trans hk'.translates.symm
  have htlb : (run P m ins j).mmu.tlb = (run P m ins k).mmu.tlb := by
    rw [htlb, run_mmu]
  rw [physInstrAddr, physInstrAddr, Sv32Mmu.instrPhysAddr, Sv32Mmu.instrPhysAddr,
    Sv32Mmu.tlbInstrPte, Sv32Mmu.tlbInstrPte, Sv32Mmu.tlbInstrMegapage, Sv32Mmu.tlbInstrMegapage,
    haddr, hon, htlb]

/-- **No fence waits for ever**: the buffer drains, and FENCE.I's cache gets clean. -/
theorem Stuck.not_fence (hl : P.bus.memLatency ≤ 256) :
    (run P m ins n).cpu.idEx.instrValid = false := by
  by_contra hv
  have hv := Bool.eq_true_of_not_eq_false hv
  have hstays : ∀ k ≥ n, (run P m ins k).cpu.pc = (run P m ins n).cpu.pc ∧
      (run P m ins k).cpu.idEx.instrValid = true ∧
      (run P m ins k).cpu.idEx.dec = (run P m ins n).cpu.idEx.dec := by
    intro k hk
    induction k, hk using Nat.le_induction with
    | base => exact ⟨rfl, hv, rfl⟩
    | succ k hk ih =>
      obtain ⟨hpc, hvk, hdec⟩ := ih
      obtain ⟨programPc, hf⟩ := @frontInv_run P m ins k
      obtain ⟨-, hpc', hv', hdec'⟩ := (hst k (hn.trans hk)).fence hf
        (RiscvCpu.memWait_of_inert (hempty k hk)) hvk
      exact ⟨hpc'.trans hpc, hv', hdec'.trans hdec⟩
  obtain ⟨k1, hk1, hdrained⟩ := drains_of_inert hempty hl
  obtain ⟨k2, hk2, hsettled⟩ := hst.fetch_settles hn hempty hl fun k hk => (hstays k hk).1
  -- Behind a drained buffer only FENCE.I waits, for its cache.
  have hclean : ∀ k ≥ k1, (cpuIns P m ins k).dataCacheCleanIn = false ∧
      RiscvCpu.dataCacheCleanReq (run P m ins k).cpu = true := by
    intro k hk
    obtain ⟨-, hvk, -⟩ := hstays k (hk1.trans hk)
    obtain ⟨programPc, hf⟩ := @frontInv_run P m ins k
    obtain ⟨hstall, -⟩ := (hst k (by omega)).fence hf
      (RiscvCpu.memWait_of_inert (hempty k (hk1.trans hk))) hvk
    rw [RiscvCpu.fenceDrainStall, (hdrained k hk).2.2, hvk] at hstall
    simp only [Bool.not_true, Bool.false_and, Bool.false_or, Bool.true_and, Bool.and_eq_true,
      Bool.not_eq_true'] at hstall
    exact ⟨hstall.1, by rw [RiscvCpu.dataCacheCleanReq, hvk, hstall.2]; rfl⟩
  have hasks : ∀ k ≥ max k1 k2, (DataBus.dcacheReq P.bus
      (DataBus.run P.bus (reset m).bus (dataIns P m ins) k) (dataIns P m ins k)).cleanReq = true ∧
      (DataBus.dcacheReq P.bus
        (DataBus.run P.bus (reset m).bus (dataIns P m ins) k) (dataIns P m ins k)).req = false := by
    intro k hk
    rw [← run_bus]
    refine ⟨(hclean k (le_of_max_le_left hk)).2, ?_⟩
    have hd := (hdrained k (le_of_max_le_left hk)).2.1
    have hw : (dataIns P m ins k).walkReq = false := (hsettled k (le_of_max_le_right hk)).1
    have hq := (quiet_of_inert hempty (hk1.trans (le_of_max_le_left hk))).2.2
    change (DataBus.walkSel _ _ _ || DataBus.drainSel _ _ _ || DataBus.cpuLoadGo _ _ _) = false
    rw [DataBus.walkSel, DataBus.drainSel, DataBus.cpuLoadGo, hd, hw, hq]
    rfl
  obtain ⟨k, hk, hc⟩ := (DataBus.attended hl progressInv_reset rfl alignedAccess).cleaned
    (Nat.zero_le _) hasks
  have hin : (cpuIns P m ins k).dataCacheCleanIn = true := by
    change (Dcache.clean P.bus.cache (run P m ins k).bus.cache &&
      !DataBus.drainReq P.bus (run P m ins k).bus (dataIns P m ins k)) = true
    rw [(hdrained k (le_of_max_le_left hk)).2.1, run_bus, hc]
    rfl
  exact Bool.false_ne_true ((hclean k (le_of_max_le_left hk)).1.symm.trans hin)

/-- **No fetch is waited for for ever.** -/
theorem Stuck.not_starved (hl : P.bus.memLatency ≤ 256) (hfl : P.fetchLatency ≤ 256) : False := by
  have hex : ∀ k ≥ n, (run P m ins k).cpu.idEx.instrValid = false := fun k hk =>
    hst.not_fence (hn.trans hk) (fun j hj => hempty j (hk.trans hj)) hl
  have hfront : ∀ k ≥ n, (run P m ins (k + 1)).cpu.idEx.instrValid =
        (run P m ins k).cpu.ifId.instructionValid ∧
      (run P m ins (k + 1)).cpu.ifId.instructionValid =
        (!RiscvCpu.fetchWait (run P m ins k).cpu (cpuIns P m ins k)) ∧
      (RiscvCpu.fetchWait (run P m ins k).cpu (cpuIns P m ins k) = true →
        (run P m ins (k + 1)).cpu.pc = (run P m ins k).cpu.pc) ∧
      (run P m ins (k + 1)).cpu.fetchDiscard =
        (!(cpuIns P m ins k).instrRvalidIn && (run P m ins k).cpu.fetchDiscard) := by
    intro k hk
    obtain ⟨programPc, hf⟩ := @frontInv_run P m ins k
    exact (hst k (hn.trans hk)).front hf (RiscvCpu.memWait_of_inert (hempty k hk)) (hex k hk)
  -- Nothing enters EX, so nothing enters IF/ID either.
  have hid : ∀ k ≥ n, (run P m ins k).cpu.ifId.instructionValid = false :=
    fun k hk => (hfront k hk).1.symm.trans (hex (k + 1) (by omega))
  have hwait : ∀ k ≥ n, RiscvCpu.fetchWait (run P m ins k).cpu (cpuIns P m ins k) = true := by
    intro k hk
    have h := (hfront k hk).2.1.symm.trans (hid (k + 1) (by omega))
    simpa using h
  have hpc : ∀ k ≥ n, (run P m ins k).cpu.pc = (run P m ins n).cpu.pc := by
    intro k hk
    induction k, hk using Nat.le_induction with
    | base => rfl
    | succ k hk ih => exact ((hfront k hk).2.2.1 (hwait k hk)).trans ih
  obtain ⟨k2, hk2, hsettled⟩ := hst.fetch_settles hn hempty hl hpc
  have hasks : ∀ k ≥ k2, Icache.Asks (icacheIns P m ins k) (physInstrAddr (run P m ins k2)) := by
    intro k hk
    obtain ⟨-, hready, haddr⟩ := hsettled k hk
    refine ⟨?_, haddr, (hst k (by omega)).flushes.2⟩
    have hw := hwait k (hk2.trans hk)
    rw [RiscvCpu.fetchWait, Bool.and_eq_true, Bool.not_eq_true', Bool.not_eq_true'] at hw
    have hfault : cpuInstrPageFault (run P m ins k) = false := hw.2
    change (mmuInstrReady (run P m ins k) && !cpuInstrPageFault (run P m ins k)) = true
    rw [hready, hfault]
    rfl
  -- The cache answers again and again.
  have hinv : ∀ k, Icache.Inv P.icache (reset m).icache (icacheIns P m ins) (fetchHistory P m ins) k
      (Icache.run P.icache (reset m).icache (icacheIns P m ins) k) :=
    Icache.inv_run (Icache.inv_reset _ _ _ _) served_run
  have hanswer : ∀ k ≥ k2, ∃ j ≥ k, (cpuIns P m ins j).instrRvalidIn = true := by
    intro k hk
    have hasks : ∀ j ≥ k, Icache.Asks (icacheIns P m ins j) (physInstrAddr (run P m ins k2)) :=
      fun j hj => hasks j (hk.trans hj)
    obtain ⟨j, hj, hv⟩ := Icache.exists_rvalid hinv (heard_run hfl k) hasks
    rw [← run_icache] at hv
    exact ⟨j, hj, hv⟩
  obtain ⟨k3, hk3, hv3⟩ := hanswer k2 le_rfl
  have hdiscard : ∀ k ≥ k3 + 1, (run P m ins k).cpu.fetchDiscard = false := by
    intro k hk
    induction k, hk using Nat.le_induction with
    | base => rw [(hfront k3 (by omega)).2.2.2, hv3]; rfl
    | succ k hk ih => rw [(hfront k (by omega)).2.2.2, ih, Bool.and_false]
  obtain ⟨k4, hk4, hv4⟩ := hanswer (k3 + 1) (by omega)
  have hw := hwait k4 (by omega)
  rw [RiscvCpu.fetchWait, RiscvCpu.fetchResponseValid, hv4, hdiscard k4 hk4] at hw
  exact Bool.false_ne_true hw

end Empty

end Stuck

/-- **The SoC never gets stuck.** With latencies up to 256, whatever the RAM holds, whatever the
devices do and whatever the program does to translation, traps and interrupts: after every cycle
comes one in which an instruction leaves EX, a trap is taken, or the core sleeps on a WFI with no
interrupt pending. -/
theorem never_stuck (P : TopParams) (m : PowerOn) (ins : ℕ → TopIn) (hm : P.bus.memLatency ≤ 256)
    (hf : P.fetchLatency ≤ 256) (n : ℕ) :
    ∃ k ≥ n, RiscvCpu.issues (run P m ins k).cpu (cpuIns P m ins k) = true ∨
      (RiscvCpu.redirect? (run P m ins k).cpu (cpuIns P m ins k)).isSome = true ∨
      RiscvCpu.wfiStall (run P m ins k).cpu = true := by
  by_contra hnone
  have hst : Stuck P m ins n := by
    intro k hk
    have hno : ¬ (RiscvCpu.issues (run P m ins k).cpu (cpuIns P m ins k) = true ∨
        (RiscvCpu.redirect? (run P m ins k).cpu (cpuIns P m ins k)).isSome = true ∨
        RiscvCpu.wfiStall (run P m ins k).cpu = true) := fun h => hnone ⟨k, hk, h⟩
    simp only [not_or, Bool.not_eq_true, RiscvCpu.redirect?_isSome] at hno
    exact ⟨hno.1, hno.2.1, hno.2.2⟩
  obtain ⟨k, hk, hempty⟩ := hst.empties hm
  exact hst.not_starved hk hempty hm hf

/-- A RAM of zeros, each of which is an illegal instruction: the trap vector is outside the RAM. -/
theorem never_stuck_zeros :
    ∃ k ≥ 100, RiscvCpu.issues (run slowMemorySoc (zeroOn fun _ => 0#32) quietIn k).cpu
        (cpuIns slowMemorySoc (zeroOn fun _ => 0#32) quietIn k) = true ∨
      (RiscvCpu.redirect? (run slowMemorySoc (zeroOn fun _ => 0#32) quietIn k).cpu
        (cpuIns slowMemorySoc (zeroOn fun _ => 0#32) quietIn k)).isSome = true ∨
      RiscvCpu.wfiStall (run slowMemorySoc (zeroOn fun _ => 0#32) quietIn k).cpu = true :=
  never_stuck slowMemorySoc (zeroOn fun _ => 0#32) quietIn (by decide) (by decide) 100

end Top

end Synapse32
