import Synapse32.Data.Devices

/-! # Answers of the data side to the core

A read that is granted to the core is answered later, and meanwhile holds the port. As long as the
load that has asked for it waits, what the core is granted for the devices is what it sees
completed. -/

namespace Synapse32

open ByteLanes

namespace DataBus

variable {P : BusParams} {s : DataBus} {i : DataIn}

/-- The address of the core's read that is granted and not answered: neither a walk nor a drain owns
the port. -/
def coreRead (s : DataBus) : Option Word :=
  if s.cache.eng.state == .bypass && !s.walkOwner && !s.drainOwner then some s.adapter.held.addr
  else none

/-- What the core reads through the adapter is a bypassed access of its own. -/
theorem coreRead_eq_some {a : Word} (h : coreRead s = some a) :
    s.cache.eng.state = .bypass ∧ s.walkOwner = false ∧ s.drainOwner = false ∧
      s.adapter.held.addr = a := by
  unfold coreRead at h
  split at h
  · rename_i hc
    simp only [Bool.and_eq_true, beq_iff_eq, Bool.not_eq_true'] at hc
    exact ⟨hc.1.1, hc.1.2, hc.2, Option.some.inj h⟩
  · exact absurd h.symm (Option.some_ne_none a)

/-- Outside BYPASS the core reads nothing through the adapter. -/
theorem coreRead_of_not_bypass (h : s.cache.eng.state ≠ .bypass) : coreRead s = none := by
  have hst : (s.cache.eng.state == .bypass) = false := by simpa using h
  rw [coreRead, hst]
  rfl

/-- An answer leaves no bypass in flight. -/
theorem not_bypass_of_rvalid (hv : dcacheRvalid P s i = true) :
    (next P s i).cache.eng.state ≠ .bypass := by
  intro hst
  obtain ⟨hrv, hcase⟩ := Dcache.state_of_next_bypass hst
  have hs : busServed P s i = false := by
    rcases hcase with hst | ⟨hgo, -⟩
    · exact unserved_of_bypass hst
    · exact unserved_of_bypassGo hgo
  exact Bool.false_ne_true ((rvalid_of_unserved hs hrv).symm.trans hv)

/-- **The core's read** is outstanding from its grant, unless the answer comes at once, to the
answer. -/
theorem coreRead_next (h : OwnerInv P s) : coreRead (next P s i) =
    if dcacheRvalid P s i then none
    else if cpuLoadGo P s i && dcacheGnt P s i then some i.physAddr
    else coreRead s := by
  cases hv : dcacheRvalid P s i
  swap
  · exact coreRead_of_not_bypass (not_bypass_of_rvalid hv)
  have hs := unserved_of_not_rvalid hv
  have hwalk : (next P s i).walkOwner = if dcacheRvalid P s i then false
      else if dcacheGnt P s i then walkSel P s i else s.walkOwner := rfl
  have hdrain : (next P s i).drainOwner = if dcacheRvalid P s i then false
      else if dcacheGnt P s i then drainSel P s i else s.drainOwner := rfl
  rw [hv, if_neg Bool.false_ne_true] at hwalk hdrain
  rw [if_neg Bool.false_ne_true]
  cases hg : dcacheGnt P s i
  · rw [hg, if_neg Bool.false_ne_true] at hwalk hdrain
    rw [Bool.and_false, if_neg Bool.false_ne_true]
    by_cases hst : s.cache.eng.state = .bypass
    · have hheld := adapter_held_next (i := i) h.adapter
      rw [handshake_gnt_of_bypass hst, if_neg (by simp)] at hheld
      rw [coreRead, coreRead, bypass_next hv (.inl hst), hwalk, hdrain, hheld, hst]
    · rw [coreRead_of_not_bypass hst]
      refine coreRead_of_not_bypass fun hst' => ?_
      obtain ⟨-, hst' | ⟨hgo, hh⟩⟩ := Dcache.state_of_next_bypass hst'
      · exact hst hst'
      · have hg' : dcacheGnt P s i = true := by
          rw [gnt_of_unserved hs, hgo]
          exact hh
        exact Bool.false_ne_true (hg.symm.trans hg')
  · rw [hg, if_pos rfl] at hwalk hdrain
    rw [Bool.and_true, coreRead, bypass_next hv (.inr ⟨hg, hs⟩), hwalk, hdrain]
    have hgo := hg
    rw [gnt_of_unserved hs, Bool.and_eq_true] at hgo
    obtain ⟨hgo, hh⟩ := hgo
    cases hl : cpuLoadGo P s i
    · -- Granted to the walker or to a drain.
      have hreq : (dcacheReq P s i).req = true := by
        simp only [Dcache.bypassGo, Bool.and_eq_true] at hgo
        exact hgo.1.1.1
      have hsel : walkSel P s i = true ∨ drainSel P s i = true := by
        simpa [dcacheReq, hl] using hreq
      rw [coreRead_of_not_bypass (by rw [(idle_of_bypassGo hgo).1]; exact EngState.noConfusion)]
      rcases hsel with hw | hd
      · simp [hw]
      · simp [hd]
    · have hw : walkSel P s i = false := by simp [walkSel, hl]
      have hd : drainSel P s i = false := by simp [drainSel, hl]
      have hlat : P.memLatency ≠ 0 := by
        intro hlat
        have hrv : (handshake P s i).rvalid = true := by
          simpa [handshake, MemAdapter.rvalidOut, MemAdapter.gnt, hlat] using hh
        have hv' : dcacheRvalid P s i = true := by
          simp [dcacheRvalid, Dcache.rvalid, hrv, hgo]
        exact Bool.false_ne_true (hv.symm.trans hv')
      have hheld := adapter_held_next (i := i) h.adapter
      rw [if_pos ⟨hh, hlat⟩, memStore_of_bypassGo hgo] at hheld
      rw [hheld]
      simp [dcacheReq, hw, hd]

/-! ## Answers to the core -/

/-- The device read that is granted to the core and not answered. -/
def outstanding (s : DataBus) : List DeviceEvent :=
  match coreRead s with
  | some a => if isDevice a then [.read a] else []
  | none => []

/-- The physical address of the core's access: of a read, where it was granted. -/
def accessAddr (s : DataBus) (i : DataIn) : Word :=
  if i.memWriteEn then i.physAddr else (coreRead s).getD i.physAddr

/-- What the core sees completed at a device in a cycle. -/
def deviceAnswers (P : BusParams) (s : DataBus) (i : DataIn) : List DeviceEvent :=
  if cpuDataRvalid P s i && (i.memReadEn || i.memWriteEn) && isDevice (accessAddr s i) then
    [if i.memWriteEn then .write i.physAddr i.byteEnable i.writeData
     else .read (accessAddr s i)]
  else []

/-- **Who waits for the outstanding read**: the load at the core's port. -/
def ReadAwaited (s : DataBus) (i : DataIn) : Prop :=
  coreRead s ≠ none → i.memReadEn = true ∧ i.memWriteEn = false

/-- What is granted is the request of the cycle, and nobody owns the port. -/
theorem idle_of_gnt (h : OwnerInv P s) (hg : dcacheGnt P s i = true) :
    s.walkOwner = false ∧ s.drainOwner = false ∧ coreRead s = none := by
  have hne : s.cache.eng.state ≠ .bypass := fun hst =>
    Bool.false_ne_true ((gnt_of_bypass hst).symm.trans hg)
  refine ⟨?_, ?_, coreRead_of_not_bypass hne⟩
  · by_contra ho
    exact hne (h.walk (Bool.eq_true_of_not_eq_false ho)).1
  · by_contra ho
    exact hne (h.drain (Bool.eq_true_of_not_eq_false ho)).1

/-- An answer that is neither the walker's nor a drain's is for a read in flight or for one that is
granted in this cycle. -/
theorem read_of_rvalid (h : OwnerInv P s) (hv : dcacheRvalid P s i = true)
    (hw : walkOwns P s i = false) (hd : drainOwns P s i = false) :
    coreRead s ≠ none ∨ (cpuLoadGo P s i && dcacheGnt P s i) = true := by
  have hload : dcacheGnt P s i = true → (dcacheReq P s i).req = true →
      (cpuLoadGo P s i && dcacheGnt P s i) = true := by
    intro hg hreq
    have hw' : walkSel P s i = false := by
      by_contra hc
      simp [walkOwns, hg, Bool.eq_true_of_not_eq_false hc] at hw
    have hd' : drainSel P s i = false := by
      by_contra hc
      simp [drainOwns, hg, Bool.eq_true_of_not_eq_false hc] at hd
    have hgo : cpuLoadGo P s i = true := by simpa [dcacheReq, hw', hd'] using hreq
    rw [hgo, hg]
    rfl
  rcases rvalid_cases h.toBusInv hv with hs | ⟨hgo, hg⟩ | hst
  · exact .inr (hload (gnt_of_served hs).1 (Dcache.req_of_served hs).1)
  · simp only [Dcache.bypassGo, Bool.and_eq_true] at hgo
    exact .inr (hload hg hgo.1.1.1)
  · left
    have hw' : s.walkOwner = false := by simpa [walkOwns, gnt_of_bypass hst] using hw
    have hd' : s.drainOwner = false := by simpa [drainOwns, gnt_of_bypass hst] using hd
    simp [coreRead, hst, hw', hd']

/-- **One cycle**: what is outstanding or granted is what the core sees completed and what is
outstanding next. -/
theorem outstanding_next (h : OwnerInv P s) (ha : ReadAwaited s i) :
    outstanding s ++ deviceGrants P s i =
      deviceAnswers P s i ++ outstanding (next P s i) := by
  have hnext := coreRead_next (i := i) h
  unfold outstanding deviceAnswers accessAddr
  rw [hnext]
  cases hr : coreRead s with
  | some a =>
    -- The outstanding read holds the port.
    obtain ⟨hrd, hwe⟩ := ha (by rw [hr]; exact Option.some_ne_none a)
    obtain ⟨hst, hw, hd, -⟩ := coreRead_eq_some hr
    have hg := gnt_of_bypass (P := P) (i := i) hst
    have hgrants : deviceGrants P s i = [] := by simp [deviceGrants, cpuDataGnt, hwe, hg]
    have hv : cpuDataRvalid P s i = dcacheRvalid P s i := by
      simp [cpuDataRvalid, hwe, walkOwns, drainOwns, hw, hd, hg]
    rw [hgrants, hv, hg, hwe, hrd]
    cases dcacheRvalid P s i <;> simp
  | none =>
    cases hwe : i.memWriteEn
    · have hgrant : cpuDataGnt P s i = (cpuLoadGo P s i && dcacheGnt P s i) := by
        rw [cpuDataGnt, hwe, if_neg Bool.false_ne_true, Bool.and_comm]
      unfold deviceGrants cpuDeviceAccess
      rw [hgrant, hwe]
      cases hl : cpuLoadGo P s i && dcacheGnt P s i
      · -- Nothing is granted to the core, and an answer is not for it.
        have hv : cpuDataRvalid P s i = false := by
          by_contra hv
          have hv := Bool.eq_true_of_not_eq_false hv
          simp only [cpuDataRvalid, hwe, Bool.false_eq_true, if_false, Bool.and_eq_true,
            Bool.not_eq_true'] at hv
          rcases read_of_rvalid h hv.1.1 hv.1.2 hv.2 with hc | hc
          · exact hc hr
          · exact Bool.false_ne_true (hl.symm.trans hc)
        rw [hv]
        cases dcacheRvalid P s i <;> rfl
      · obtain ⟨hgo, hg⟩ := Bool.and_eq_true_iff.mp hl
        obtain ⟨hw, hd, -⟩ := idle_of_gnt h hg
        have hv : cpuDataRvalid P s i = dcacheRvalid P s i := by
          simp [cpuDataRvalid, hwe, walkOwns, drainOwns, walkSel, drainSel, hw, hd, hgo]
        have hrd : i.memReadEn = true := by
          simp only [cpuLoadGo, cpuDataBusReq, cpuDataReq, hwe, Bool.or_false,
            Bool.and_eq_true] at hgo
          exact hgo.1.1.1.1.1.1
        rw [hv, hrd]
        cases dcacheRvalid P s i <;> simp
    · have hgo : cpuLoadGo P s i = false := by simp [cpuLoadGo, hwe]
      have hv : cpuDataRvalid P s i = storeBufPushReq P s i := by simp [cpuDataRvalid, hwe]
      have hg : cpuDataGnt P s i = storeBufPushReq P s i := by simp [cpuDataGnt, hwe]
      unfold deviceGrants cpuDeviceAccess
      rw [hgo, hv, hg, hwe]
      simp

/-! ## Writes to the devices -/

/-- An adapter that holds nothing and takes nothing over makes no access. -/
theorem dataFire_of_idle (hb : s.adapter.busy = false) (hg : (handshake P s i).gnt = false) :
    dataFire P s i = false := by
  unfold dataFire
  unfold handshake MemAdapter.gnt at hg
  by_cases hl : P.memLatency = 0
  · simpa [hl] using hg
  · simp [hl, MemAdapter.sampleNow, MemAdapter.sampleOnAccept, MemAdapter.gnt, hb] at hg ⊢
    intro hr hv
    exact absurd (hg hr) (by simp [hv])

/-- **A device is written for a drain only**, never for a walk. -/
theorem not_walkOwns_of_write (h : OwnerInv P s) (hf : dataWriteFire P s i = true)
    (hd : deviceAccess P s i = true) : walkOwns P s i = false := by
  rw [dataWriteFire_eq, Bool.and_eq_true] at hf
  obtain ⟨hfire, hwe⟩ := hf
  rw [deviceAccess] at hd
  cases hg : (handshake P s i).gnt
  · -- The access is the one that the adapter holds.
    have hb : s.adapter.busy = true := by
      by_contra hb
      have hno := dataFire_of_idle (Bool.eq_false_of_not_eq_true hb) hg
      exact Bool.false_ne_true (hno.symm.trans hfire)
    rw [dataStore_of_busy h.adapter hb] at hwe hd
    rcases held_cases h.toBusInv hb i with hst | he
    · rw [walkOwns, gnt_of_bypass hst, Bool.and_false, Bool.or_false]
      by_contra ho
      have hdrain := (h.walk (Bool.eq_true_of_not_eq_false ho)).2
      exact Bool.false_ne_true (hdrain.symm.trans ((h.held hst).symm.trans hwe))
    · rw [StoreReq.events, if_pos hd] at he
      exact absurd he (List.cons_ne_nil _ _)
  · -- It is the one that the adapter is just taking over.
    obtain ⟨hr, hb, -⟩ := idle_of_handshake_gnt h.adapter hg
    rw [dataStore_of_not_busy hb] at hwe hd
    cases hm : Dcache.memLine s.cache
    · have hgo := bypassGo_of_memReq hr hm
      have hgnt : dcacheGnt P s i = true := by
        rw [gnt_of_unserved (unserved_of_bypassGo hgo), hgo, hg]
        rfl
      rw [memStore_of_bypassGo hgo] at hwe
      have hsel : drainSel P s i = true := hwe
      rw [walkOwns, (idle_of_gnt h hgnt).1, hgnt, Bool.and_true, Bool.false_or]
      by_contra hw
      have hno := drainSel_of_walkSel (Bool.eq_true_of_not_eq_false hw)
      exact Bool.false_ne_true (hno.symm.trans hsel)
    · have hram := (memStore_line (i := i) h.system hm).1
      exact absurd hd (by rw [isDevice_eq_false_of_isRam hram]; exact Bool.false_ne_true)

/-! ## Loads from the RAM -/

/-- Only a granted request of the cycle is answered while nothing is outstanding. -/
theorem loadGo_of_rvalid (h : OwnerInv P s) (hr : coreRead s = none) (hwe : i.memWriteEn = false)
    (hv : cpuDataRvalid P s i = true) :
    cpuLoadGo P s i = true ∧ dcacheGnt P s i = true := by
  simp only [cpuDataRvalid, hwe, Bool.false_eq_true, if_false, Bool.and_eq_true,
    Bool.not_eq_true'] at hv
  rcases read_of_rvalid h hv.1.1 hv.1.2 hv.2 with hc | hc
  · exact absurd hr hc
  · exact Bool.and_eq_true_iff.mp hc

/-- The request of a load that goes is the core's. -/
theorem dcacheReq_of_loadGo (hgo : cpuLoadGo P s i = true) :
    (dcacheReq P s i).req = true ∧ (dcacheReq P s i).addr = i.physAddr ∧
      (dcacheReq P s i).we = false ∧ (dcacheReq P s i).loadType = i.loadType := by
  have hw : walkSel P s i = false := by simp [walkSel, hgo]
  have hd : drainSel P s i = false := by simp [drainSel, hgo]
  refine ⟨?_, ?_, hd, ?_⟩ <;> simp [dcacheReq, hw, hd, hgo]

/-- **A load from RAM that the core sees answered** reads what the accepted writes have left,
devices or not among them. -/
theorem ram_load_value (h : OwnerInv P s) (hi : AlignedAccess i) (hwa : WalkAligned i)
    (hr : coreRead s = none) (hram : isRam i.physAddr = true) (hwe : i.memWriteEn = false)
    (hv : cpuDataRvalid P s i = true) :
    cpuDataRdata P s i = loadValue (ramMemory P s) i.physAddr.toNat i.loadType := by
  obtain ⟨hgo, hg⟩ := loadGo_of_rvalid h hr hwe hv
  obtain ⟨hreq, haddr, hload, hkind⟩ := dcacheReq_of_loadGo hgo
  have hram' : isRam (dcacheReq P s i).addr = true := haddr.symm ▸ hram
  have hserved : busServed P s i = true := gnt_of_ram hram' ▸ hg
  obtain ⟨hafter, hview⟩ := inv_ramAfter (r := dcacheReq P s i) (c := choice P s i)
    h.system.cache h.system.port
  have hrd := Dcache.rdata_of_served hafter
    (dcacheReq_aligned_of_ram h.toQueueInv hi hwa hreq hram') hload hserved
  rw [hview, haddr, hkind] at hrd
  have hrd : cpuDataRdata P s i = loadValue (bytes (CacheSystem.view P.cache (system s)))
      i.physAddr.toNat i.loadType := hrd
  rw [hrd]
  simp only [cpuLoadGo, Bool.and_eq_true, Bool.not_eq_true'] at hgo
  have hal := hi hgo.1.1.1 hram
  rw [hwe, if_neg Bool.false_ne_true] at hal
  -- The buffered writes are to other words: a match would have held the load back.
  have hfit : ∀ e ∈ ramWrites s.buffer.entries, AlignedStore e.addr e.be := fun e he =>
    h.aligned e (List.mem_of_mem_filter he) (by simpa using (List.mem_filter.mp he).2)
  refine hal.congr fun x hx => (applyWrites_of_ne_word hfit fun e he heq => ?_).symm
  have hmatch : s.buffer.hasMatch P.storeBufferDepth i.physAddr = true :=
    (StoreBuffer.hasMatch_iff h.count).mpr ⟨e, List.mem_of_mem_filter he, heq.trans hx⟩
  exact Bool.false_ne_true (hgo.1.2.symm.trans hmatch)

/-- A load from RAM is never outstanding. -/
theorem coreRead_next_of_ram (h : OwnerInv P s) (hr : coreRead s = none)
    (hram : cpuLoadGo P s i = true → isRam i.physAddr = true) :
    coreRead (next P s i) = none := by
  rw [coreRead_next h]
  split
  · rfl
  · rename_i hv
    split
    · rename_i hc
      obtain ⟨hgo, hg⟩ := Bool.and_eq_true_iff.mp hc
      rw [gnt_of_ram (by rw [(dcacheReq_of_loadGo hgo).2.1]; exact hram hgo)] at hg
      exact absurd (gnt_of_served hg).2 hv
    · exact hr

/-! ## A quiet data side -/

/-- With an empty buffer and no read outstanding the devices have seen all that was granted. -/
theorem pending_of_empty (h : OwnerInv P s) (he : s.buffer.empty = true) (hr : coreRead s = none)
    (i : DataIn) : pending s = [] := by
  have hdrain : s.drainOwner = false := by
    by_contra ho
    have hne := (h.drain (Bool.eq_true_of_not_eq_false ho)).2.1
    exact Bool.false_ne_true (hne.symm.trans he)
  have hflight : inFlight s = [] := by
    by_cases hb : s.adapter.busy = true
    · rcases held_cases h.toBusInv hb i with hst | hno
      · rw [inFlight_of_bypass hb hst]
        cases hw : s.walkOwner
        · simp [coreRead, hst, hw, hdrain] at hr
        · rfl
      · exact inFlight_of_no_events hno
    · exact inFlight_of_not_busy (Bool.eq_false_of_not_eq_true hb)
  rw [pending, queued, StoreBuffer.empty_iff.mp he, hflight, hdrain]
  rfl

/-- An empty buffer that nothing enters stays empty, -/
theorem empty_next (h : BusInv P s) (he : s.buffer.empty = true)
    (hp : storeBufPushReq P s i = false) : (next P s i).buffer.empty = true := by
  rw [StoreBuffer.empty_iff] at he ⊢
  refine List.eq_nil_iff_forall_not_mem.mpr fun e hmem => ?_
  rcases mem_entries_next h hmem with hmem | ⟨-, hp'⟩
  · rw [he] at hmem
    exact absurd hmem List.not_mem_nil
  · exact absurd (hp.symm.trans hp') Bool.false_ne_true

/-- and counts as drained. -/
theorem drained_of_empty (he : s.buffer.empty = true) (hp : storeBufPushReq P s i = false) :
    storeBufDrained P s i = true := by
  have hcount : s.buffer.count = 0 := by simpa [StoreBuffer.empty] using he
  rw [storeBufDrained, storeBufPush, hp, storeBufPop, he, Bool.not_true, Bool.and_false,
    StoreBuffer.drained, StoreBuffer.tail, if_neg Bool.false_ne_true, hcount]
  rfl

end DataBus

end Synapse32
