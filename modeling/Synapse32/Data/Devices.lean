import Synapse32.Data.Origin

/-! # Device accesses of the data side

What the core gets granted for a device reaches the device once and in that order: between the grant
and the enable of the device it waits in the store buffer or in the adapter, whatever the walker,
the line transfers and the buffered RAM writes do in between. -/

namespace Synapse32

/-- What a device sees of an access. -/
inductive DeviceEvent
  | read (addr : Word)
  | write (addr : Word) (be : BitVec 4) (data : Word)
  deriving DecidableEq

/-- An access at the storage side as the devices see it: nothing, if it is to none of them. -/
def StoreReq.events (q : StoreReq) : List DeviceEvent :=
  if isDevice q.addr then [if q.we then .write q.addr q.be q.wdata else .read q.addr] else []

/-- A buffered write as the devices see it. -/
def StoreEntry.events (e : StoreEntry) : List DeviceEvent :=
  if isDevice e.addr then [.write e.addr e.be e.data] else []

/-- An access to RAM is no event of a device. -/
theorem StoreReq.events_of_ram {q : StoreReq} (h : isRam q.addr = true) : q.events = [] := by
  rw [StoreReq.events, isDevice_eq_false_of_isRam h]
  rfl

/-- An entry for RAM is no event of a device. -/
theorem StoreEntry.events_of_ram {e : StoreEntry} (h : isRam e.addr = true) : e.events = [] := by
  rw [StoreEntry.events, isDevice_eq_false_of_isRam h]
  rfl

namespace DataBus

variable (P : BusParams) (s : DataBus) (i : DataIn)

/-- **What the devices see in a cycle** of an access that no walk owns: the read or write enable of
the device that is addressed. -/
def deviceFires : List DeviceEvent :=
  if walkOwns P s i then []
  else if dataReadFire P s i && deviceAccess P s i then [.read (dataStore P s i).addr]
  else if dataWriteFire P s i && deviceAccess P s i then
    [.write (dataStore P s i).addr (dataStore P s i).be (dataStore P s i).wdata]
  else []

/-- **What the core is granted for a device in a cycle.** -/
def deviceGrants : List DeviceEvent :=
  if cpuDataGnt P s i && cpuDeviceAccess i then
    [if i.memWriteEn then .write i.physAddr i.byteEnable i.writeData else .read i.physAddr]
  else []

/-- What the adapter takes over for a device in a cycle, not from the walker. -/
def deviceIssue : List DeviceEvent :=
  if Dcache.bypassGo s.cache (dcacheReq P s i) && (handshake P s i).gnt && !walkSel P s i then
    (memStore P s i).events
  else []

/-- The device access that the adapter holds, where no walk owns it. -/
def inFlight : List DeviceEvent :=
  if s.adapter.busy && !Dcache.memLine s.cache && !s.walkOwner then s.adapter.held.events else []

/-- The device writes in the buffer that the adapter has not taken over. -/
def queued : List DeviceEvent :=
  (if s.drainOwner then s.buffer.entries.tail else s.buffer.entries).flatMap StoreEntry.events

/-- **The device accesses that are granted and that no device has seen.** -/
def pending : List DeviceEvent := inFlight s ++ queued s

/-- The cycle in which the adapter makes an access. -/
def dataFire : Bool :=
  if P.memLatency = 0 then memReq P s i
  else s.adapter.sampleNow P.memLatency || s.adapter.sampleOnAccept P.memLatency (memReq P s i)

variable {P s i}

/-! ## The adapter's access -/

/-- The adapter samples for the access that it holds, or for the one that it is just taking. -/
theorem sampled_eq (a : MemAdapter) {latency : ℕ} (hl : latency ≠ 0) (req : Bool) (q : StoreReq)
    (f : StoreReq → Bool) :
    ((a.sampleNow latency && f a.held) || (a.sampleOnAccept latency req && f q)) =
      ((a.sampleNow latency || a.sampleOnAccept latency req) &&
        f (if a.busy then a.held else q)) := by
  cases hb : a.busy
  · simp [MemAdapter.sampleNow, hb]
  · simp [MemAdapter.sampleOnAccept, MemAdapter.gnt, hb, hl]

/-- `data_read_fire` is the access without write enable. -/
theorem dataReadFire_eq : dataReadFire P s i = (dataFire P s i && !(dataStore P s i).we) := by
  unfold dataReadFire MemAdapter.readFire dataFire dataStore MemAdapter.store
  by_cases hl : P.memLatency = 0
  · simp [hl]
  · rw [if_neg hl, if_neg hl, if_neg hl]
    exact sampled_eq s.adapter hl _ _ fun q => !q.we

/-- `data_write_fire` is the access with it. -/
theorem dataWriteFire_eq : dataWriteFire P s i = (dataFire P s i && (dataStore P s i).we) := by
  unfold dataWriteFire MemAdapter.writeFire dataFire dataStore MemAdapter.store
  by_cases hl : P.memLatency = 0
  · simp [hl]
  · rw [if_neg hl, if_neg hl, if_neg hl]
    exact sampled_eq s.adapter hl _ _ fun q => q.we

/-- A device sees the access that the adapter makes. -/
theorem deviceFires_eq : deviceFires P s i =
    if dataFire P s i && !walkOwns P s i then (dataStore P s i).events else [] := by
  unfold deviceFires deviceAccess StoreReq.events
  rw [dataReadFire_eq, dataWriteFire_eq]
  cases dataFire P s i
  · simp
  · cases walkOwns P s i
    · cases isDevice (dataStore P s i).addr
      · simp
      · cases (dataStore P s i).we <;> simp
    · simp

/-- A registered adapter takes an access when it has none. -/
theorem handshake_gnt_of_latency (hl : P.memLatency ≠ 0) : (handshake P s i).gnt =
    (memReq P s i && !s.adapter.busy && !s.adapter.rvalid) := by
  simp [handshake, MemAdapter.gnt, hl]

/-- What the adapter holds after the edge. -/
theorem adapter_held_next (hi : AdapterInv P s) : (next P s i).adapter.held =
    if (handshake P s i).gnt = true ∧ P.memLatency ≠ 0 then memStore P s i
    else s.adapter.held := by
  have hnext : (next P s i).adapter = _ :=
    MemAdapter.next_eq hi.comb hi.excl (memReq P s i) (memStore P s i) (memReadData P s i)
  rw [hnext]
  by_cases hl : P.memLatency = 0
  · obtain ⟨hb, hv⟩ := hi.comb hl
    simp [hl, hb, hv]
  · have hg := handshake_gnt_of_latency hl (s := s) (i := i)
    rw [hg]
    cases hv : s.adapter.rvalid
    · cases hb : s.adapter.busy
      · cases hr : memReq P s i
        · simp
        · by_cases h1 : P.memLatency = 1 <;> simp [hl, h1]
      · cases s.adapter.sampleNow P.memLatency <;> simp
    · simp

/-- Whether the adapter waits after the edge. -/
theorem adapter_busy_next (hi : AdapterInv P s) : (next P s i).adapter.busy =
    (((handshake P s i).gnt || s.adapter.busy) && !dataFire P s i) := by
  have hnext : (next P s i).adapter = _ :=
    MemAdapter.next_eq hi.comb hi.excl (memReq P s i) (memStore P s i) (memReadData P s i)
  rw [hnext]
  by_cases hl : P.memLatency = 0
  · obtain ⟨hb, hv⟩ := hi.comb hl
    simp [hl, hb, hv, handshake, MemAdapter.gnt, dataFire]
  · have hg := handshake_gnt_of_latency hl (s := s) (i := i)
    have hfire : dataFire P s i = (s.adapter.sampleNow P.memLatency ||
        ((handshake P s i).gnt && P.memLatency == 1)) := by
      simp [dataFire, hl, MemAdapter.sampleOnAccept, handshake]
    rw [hfire, hg]
    cases hv : s.adapter.rvalid
    · cases hb : s.adapter.busy
      · cases hr : memReq P s i
        · simp [hb]
        · by_cases h1 : P.memLatency = 1
          · simp [h1, MemAdapter.sampleNow]
          · simp [hl, h1, hb, MemAdapter.sampleNow]
      · cases hn : s.adapter.sampleNow P.memLatency <;> simp
    · have hb := busy_of_rvalid hi hv
      simp [hb]

/-! ## Bypasses -/

/-- A bypass is for a device, and starts in IDLE. -/
theorem idle_of_bypassGo (hgo : Dcache.bypassGo s.cache (dcacheReq P s i) = true) :
    s.cache.eng.state = .idle ∧ isRam (dcacheReq P s i).addr = false := by
  simp only [Dcache.bypassGo, Bool.and_eq_true, beq_iff_eq, Bool.not_eq_true',
    Dcache.cacheable] at hgo
  exact ⟨hgo.1.2, hgo.1.1.2⟩

/-- The request that bypasses the cache goes to the adapter as it is. -/
theorem memStore_of_bypassGo (hgo : Dcache.bypassGo s.cache (dcacheReq P s i) = true) :
    memStore P s i = ⟨(dcacheReq P s i).addr, (dcacheReq P s i).we, (dcacheReq P s i).be,
      (dcacheReq P s i).wdata⟩ := by
  have hm : Dcache.memLine s.cache = false := by
    rw [Dcache.memLine, (idle_of_bypassGo hgo).1]
    rfl
  exact (memStore_of_bypass (by rw [memReq, Dcache.memReq, hgo, Bool.or_true]) hm).2

/-- A bypass that starts serves no access to RAM. -/
theorem unserved_of_bypassGo (hgo : Dcache.bypassGo s.cache (dcacheReq P s i) = true) :
    busServed P s i = false := by
  by_contra hs
  have hram := (Dcache.req_of_served (Bool.eq_true_of_not_eq_false hs)).2
  exact Bool.false_ne_true ((idle_of_bypassGo hgo).2.symm.trans hram)

/-- A bypass that is held serves no access to RAM. -/
theorem unserved_of_bypass (hst : s.cache.eng.state = .bypass) : busServed P s i = false := by
  by_contra hs
  have hg := (gnt_of_served (Bool.eq_true_of_not_eq_false hs)).1
  exact Bool.false_ne_true ((gnt_of_bypass hst).symm.trans hg)

/-- What is granted and not served is a bypass that the adapter takes over. -/
theorem gnt_of_unserved (hs : busServed P s i = false) :
    dcacheGnt P s i = (Dcache.bypassGo s.cache (dcacheReq P s i) && (handshake P s i).gnt) := by
  have hs' : Dcache.served P.cache s.cache (dcacheReq P s i) (handshake P s i) = false := hs
  rw [dcacheGnt, Dcache.gnt, hs', Bool.false_or]

/-- What is not served is answered by the adapter. -/
theorem rvalid_of_unserved (hs : busServed P s i = false)
    (hrv : (handshake P s i).rvalid = false) : dcacheRvalid P s i = false := by
  have hs' : Dcache.served P.cache s.cache (dcacheReq P s i) (handshake P s i) = false := hs
  rw [dcacheRvalid, Dcache.rvalid, hs', hrv]
  rfl

/-- Without an answer nothing is served. -/
theorem unserved_of_not_rvalid (hv : dcacheRvalid P s i = false) : busServed P s i = false := by
  by_contra hs
  have hv' := (gnt_of_served (Bool.eq_true_of_not_eq_false hs)).2
  exact Bool.false_ne_true (hv.symm.trans hv')

/-- No access is taken over while a bypass is in flight. -/
theorem handshake_gnt_of_bypass (hst : s.cache.eng.state = .bypass) :
    (handshake P s i).gnt = false := by
  have hr : memReq P s i = false := by
    simp [memReq, Dcache.memReq, Dcache.memLine, Dcache.bypassGo, hst]
  simp [handshake, MemAdapter.gnt, hr]

/-! ## Who owns the port -/

/-- **A walk that owns the port** waits for its bypass, alone; and the bypass in flight is a write
exactly if a drain owns it. -/
structure OwnerInv (P : BusParams) (s : DataBus) : Prop extends QueueInv P s where
  walk : s.walkOwner = true → s.cache.eng.state = .bypass ∧ s.drainOwner = false
  held : s.cache.eng.state = .bypass → s.adapter.held.we = s.drainOwner

/-- **Step.** -/
theorem OwnerInv.next (h : OwnerInv P s) (hi : AlignedAccess i) : OwnerInv P (next P s i) where
  toQueueInv := h.toQueueInv.next hi
  walk ho := by
    have ho : (if dcacheRvalid P s i then false else if dcacheGnt P s i then walkSel P s i
      else s.walkOwner) = true := ho
    change _ ∧ (if dcacheRvalid P s i then false else if dcacheGnt P s i then drainSel P s i
      else s.drainOwner) = false
    cases hv : dcacheRvalid P s i
    · rw [hv, if_neg Bool.false_ne_true] at ho
      cases hg : dcacheGnt P s i
      · rw [hg, if_neg Bool.false_ne_true] at ho
        exact ⟨bypass_next hv (.inl (h.walk ho).1), (h.walk ho).2⟩
      · rw [hg, if_pos rfl] at ho
        exact ⟨bypass_next hv (.inr ⟨hg, unserved_of_not_rvalid hv⟩), drainSel_of_walkSel ho⟩
    · rw [hv, if_pos rfl] at ho
      exact absurd ho Bool.false_ne_true
  held hst := by
    obtain ⟨hrv, hcase⟩ := Dcache.state_of_next_bypass hst
    have hrv : (handshake P s i).rvalid = false := hrv
    rw [adapter_held_next h.adapter]
    change _ = if dcacheRvalid P s i then false else if dcacheGnt P s i then drainSel P s i
      else s.drainOwner
    rcases hcase with hst | ⟨hgo, hg⟩
    · have hs := unserved_of_bypass (P := P) (i := i) hst
      have hv := rvalid_of_unserved hs hrv
      rw [handshake_gnt_of_bypass hst, hv, gnt_of_bypass hst]
      simpa using h.held hst
    · have hg : (handshake P s i).gnt = true := hg
      -- An access that is not answered at once has a registered adapter.
      have hl : P.memLatency ≠ 0 := by
        intro hl
        have hr : memReq P s i = false := by simpa [handshake, MemAdapter.rvalidOut, hl] using hrv
        simp [handshake, MemAdapter.gnt, hl, hr] at hg
      have hs := unserved_of_bypassGo hgo
      have hv := rvalid_of_unserved hs hrv
      rw [if_pos ⟨hg, hl⟩, hv, gnt_of_unserved hs, hgo, hg, memStore_of_bypassGo hgo]
      rfl

/-! ## From the core to the adapter -/

/-- The device write that the buffer accepts in a cycle. -/
def pushed (P : BusParams) (s : DataBus) (i : DataIn) : List DeviceEvent :=
  if storeBufPushReq P s i then (pushEntry i).events else []

/-- What a cycle grants to devices: the store that is pushed, or the load. -/
theorem deviceGrants_eq : deviceGrants P s i = pushed P s i ++
    if cpuLoadGo P s i && dcacheGnt P s i && isDevice i.physAddr then [.read i.physAddr]
    else [] := by
  unfold deviceGrants cpuDataGnt cpuDeviceAccess pushed StoreEntry.events pushEntry
  cases hwe : i.memWriteEn
  · have hpush : storeBufPushReq P s i = false := by simp [storeBufPushReq, hwe]
    simp [hpush, Bool.and_comm]
  · have hgo : cpuLoadGo P s i = false := by simp [cpuLoadGo, hwe]
    cases storeBufPushReq P s i <;> simp [hgo]

/-- Without a load the store that is pushed is granted alone. -/
theorem deviceGrants_of_not_load (h : (cpuLoadGo P s i && dcacheGnt P s i) = false) :
    deviceGrants P s i = pushed P s i := by
  rw [deviceGrants_eq, h, Bool.false_and, if_neg Bool.false_ne_true, List.append_nil]

/-- The entry that is pushed is the grant it counts as. -/
theorem flatMap_pushed : (if storeBufPushReq P s i then [pushEntry i] else []).flatMap
    StoreEntry.events = pushed P s i := by
  unfold pushed
  split <;> simp

/-- A write that is taken over is that of the drain. -/
theorem deviceIssue_of_drainSel (hd : drainSel P s i = true) : deviceIssue P s i =
    if Dcache.bypassGo s.cache (dcacheReq P s i) && (handshake P s i).gnt then
      (drainEntry s i).events
    else [] := by
  have hw : walkSel P s i = false := by
    by_contra hw
    exact Bool.false_ne_true
      ((drainSel_of_walkSel (Bool.eq_true_of_not_eq_false hw)).symm.trans hd)
  obtain ⟨-, hwe, haddr, hbe, hdata⟩ := dcacheReq_of_drainSel hd
  rw [deviceIssue, hw, Bool.not_false, Bool.and_true]
  by_cases hgo : Dcache.bypassGo s.cache (dcacheReq P s i) = true
  · rw [memStore_of_bypassGo hgo, hwe, haddr, hbe, hdata]
    rfl
  · rw [Bool.eq_false_of_not_eq_true hgo]
    rfl

/-- The device write that a granted drain hands to the adapter; a drain that the cache serves is to
RAM. -/
theorem deviceIssue_of_granted (hd : drainSel P s i = true) (hg : dcacheGnt P s i = true) :
    deviceIssue P s i = (drainEntry s i).events := by
  rw [deviceIssue_of_drainSel hd]
  cases hs : busServed P s i
  · rw [gnt_of_unserved hs] at hg
    rw [if_pos hg]
  · have hram := (Dcache.req_of_served hs).2
    rw [(dcacheReq_of_drainSel hd).2.2.1] at hram
    rw [StoreEntry.events_of_ram hram, ite_self]

/-- What is taken over and belongs to no drain is a load. -/
theorem deviceIssue_of_not_drain (hsel : (drainSel P s i && dcacheGnt P s i) = false) :
    deviceIssue P s i =
      if cpuLoadGo P s i && dcacheGnt P s i && isDevice i.physAddr then [.read i.physAddr]
      else [] := by
  by_cases hload : (cpuLoadGo P s i && dcacheGnt P s i) = true
  · obtain ⟨hgo, hg⟩ := Bool.and_eq_true_iff.mp hload
    -- A load that goes is what the cache is asked for.
    have hw : walkSel P s i = false := by simp [walkSel, hgo]
    have hd : drainSel P s i = false := by simp [drainSel, hgo]
    have haddr : (dcacheReq P s i).addr = i.physAddr := by simp [dcacheReq, hw, hd]
    have hwe : (dcacheReq P s i).we = false := hd
    rw [hload, Bool.true_and, deviceIssue, hw, Bool.not_false, Bool.and_true]
    cases hs : busServed P s i
    · rw [gnt_of_unserved hs] at hg
      rw [if_pos hg, memStore_of_bypassGo (Bool.and_eq_true_iff.mp hg).1, haddr, hwe]
      rfl
    · have hram := (Dcache.req_of_served hs).2
      rw [haddr] at hram
      rw [isDevice_eq_false_of_isRam hram]
      by_cases hgo' : Dcache.bypassGo s.cache (dcacheReq P s i) = true
      · exact absurd (hs.symm.trans (unserved_of_bypassGo hgo')) (by decide)
      · rw [Bool.eq_false_of_not_eq_true hgo']
        rfl
  · rw [Bool.eq_false_of_not_eq_true hload, Bool.false_and, if_neg Bool.false_ne_true]
    -- What else the adapter takes over is for a drain or for a walk.
    refine if_neg fun hissue => hload ?_
    simp only [Bool.and_eq_true, Bool.not_eq_true'] at hissue
    obtain ⟨⟨hgo, hh⟩, hw⟩ := hissue
    have hg : dcacheGnt P s i = true := by
      rw [gnt_of_unserved (unserved_of_bypassGo hgo), hgo, hh]
      rfl
    have hd : drainSel P s i = false := by simpa [hg] using hsel
    have hreq : (dcacheReq P s i).req = true := by
      simp only [Dcache.bypassGo, Bool.and_eq_true] at hgo
      exact hgo.1.1.1
    have hl : cpuLoadGo P s i = true := by simpa [dcacheReq, hw, hd] using hreq
    rw [hl, hg]
    rfl

/-- **What the adapter takes over** was the oldest in the queue, or has just been granted. -/
theorem queued_next (h : OwnerInv P s) :
    queued s ++ deviceGrants P s i = deviceIssue P s i ++ queued (next P s i) := by
  have hentries := entries_next (i := i) h.toBusInv
  have howner : (next P s i).drainOwner =
      if dcacheRvalid P s i then false else if dcacheGnt P s i then drainSel P s i
      else s.drainOwner := rfl
  unfold queued
  rw [hentries, howner]
  by_cases ho : s.drainOwner = true
  · -- A drain owns the port: nothing is granted until it is answered.
    obtain ⟨hst, hne, -⟩ := h.drain ho
    have hg := gnt_of_bypass (P := P) (i := i) hst
    have hissue : deviceIssue P s i = [] := by simp [deviceIssue, handshake_gnt_of_bypass hst]
    have hdone : drainDone P s i = dcacheRvalid P s i := by simp [drainDone, drainOwns, ho]
    have hpop : storeBufPop P s i = dcacheRvalid P s i := by simp [storeBufPop, hdone, hne]
    have hpush : storeBufPush P s i = storeBufPushReq P s i := by simp [storeBufPush, hne]
    rw [hissue, deviceGrants_of_not_load (by rw [hg, Bool.and_false]), hpop, hpush, hg, ho]
    cases dcacheRvalid P s i
    · rw [StoreBuffer.entries_of_not_empty hne]
      simp [← flatMap_pushed]
    · simp [← flatMap_pushed]
  have ho : s.drainOwner = false := Bool.eq_false_of_not_eq_true ho
  by_cases hsel : (drainSel P s i && dcacheGnt P s i) = true
  · -- The oldest write, or the one that enters an empty buffer, is granted.
    rw [Bool.and_eq_true] at hsel
    obtain ⟨hd, hg⟩ := hsel
    have hload : (cpuLoadGo P s i && dcacheGnt P s i) = false := by
      rw [loadGo_of_drainSel hd, Bool.false_and]
    have hdone : drainDone P s i = dcacheRvalid P s i := by simp [drainDone, drainOwns, hd, hg]
    rw [deviceIssue_of_granted hd hg, deviceGrants_of_not_load hload, ho, hg, hd]
    cases he : s.buffer.empty
    · have hentry : drainEntry s i = s.buffer.slot 0 := by simp [drainEntry, he]
      have hpop : storeBufPop P s i = dcacheRvalid P s i := by simp [storeBufPop, hdone, he]
      have hpush : storeBufPush P s i = storeBufPushReq P s i := by simp [storeBufPush, he]
      rw [hpop, hpush, hentry, StoreBuffer.entries_of_not_empty he]
      cases dcacheRvalid P s i <;> simp [← flatMap_pushed]
    · obtain ⟨hreq, hentry⟩ := push_of_drainSel hd he
      have hpop : storeBufPop P s i = false := by simp [storeBufPop, he]
      have hpush : storeBufPush P s i = !dcacheRvalid P s i := by
        simp [storeBufPush, hreq, he, hdone]
      rw [hpop, hpush, hentry, StoreBuffer.empty_iff.mp he, pushed, if_pos hreq]
      cases dcacheRvalid P s i <;> simp
  · -- No drain is granted: the buffer only grows, and what is taken over is a load.
    have hsel : (drainSel P s i && dcacheGnt P s i) = false := Bool.eq_false_of_not_eq_true hsel
    have hdone : drainDone P s i = false := by simp [drainDone, drainOwns, ho, hsel]
    have hpop : storeBufPop P s i = false := by simp [storeBufPop, hdone]
    have hpush : storeBufPush P s i = storeBufPushReq P s i := by simp [storeBufPush, hdone]
    have howner' : (if dcacheRvalid P s i then false else if dcacheGnt P s i then drainSel P s i
        else s.drainOwner) = false := by
      cases dcacheRvalid P s i
      · cases hg : dcacheGnt P s i
        · simpa using ho
        · simpa [hg] using hsel
      · rfl
    rw [howner', hpop, hpush, ho, deviceGrants_eq, deviceIssue_of_not_drain hsel]
    simp only [Bool.false_eq_true, if_false, List.flatMap_append, flatMap_pushed]
    split
    · -- A device load has waited for the buffer to drain.
      rename_i hload
      simp only [Bool.and_eq_true] at hload
      obtain ⟨⟨hgo, -⟩, hdev⟩ := hload
      simp only [cpuLoadGo, cpuDeviceAccess, hdev, Bool.and_eq_true, Bool.not_eq_true',
        Bool.true_and, Bool.not_eq_false'] at hgo
      have hpush' : pushed P s i = [] := by
        rw [pushed, storeBufPushReq, hgo.1.1.2]
        simp
      rw [StoreBuffer.empty_iff.mp hgo.2, hpush']
      rfl
    · simp

/-! ## From the adapter to the devices -/

/-- An adapter at rest passes the request on. -/
theorem dataStore_of_not_busy (hb : s.adapter.busy = false) : dataStore P s i = memStore P s i := by
  simp [dataStore, MemAdapter.store, hb]

/-- A busy adapter presents what it holds. -/
theorem dataStore_of_busy (hi : AdapterInv P s) (hb : s.adapter.busy = true) :
    dataStore P s i = s.adapter.held := by
  have hl : P.memLatency ≠ 0 := fun hl => Bool.false_ne_true ((hi.comb hl).1.symm.trans hb)
  simp [dataStore, MemAdapter.store, hb, hl]

/-- What the adapter holds is a bypass in flight, or an access to RAM. -/
theorem held_cases (h : BusInv P s) (hb : s.adapter.busy = true) (i : DataIn) :
    s.cache.eng.state = .bypass ∨ s.adapter.held.events = [] := by
  cases hm : Dcache.memLine s.cache
  · left
    have hp := h.system.port
    change PortInv P.cache s.cache s.mem.words (port s) at hp
    rw [port_of_busy h.adapter hb] at hp
    exact hp.bypass hm
  · right
    have hline := dataStore_line (i := i) h.adapter h.system hm
    rw [dataStore_of_busy h.adapter hb] at hline
    rw [hline]
    exact StoreReq.events_of_ram (memStore_line h.system hm).1

/-- No line moves in BYPASS. -/
theorem memLine_of_bypass (hst : s.cache.eng.state = .bypass) :
    Dcache.memLine s.cache = false := by
  rw [Dcache.memLine, hst]
  rfl

/-- An adapter at rest holds nothing. -/
theorem inFlight_of_not_busy (hb : s.adapter.busy = false) : inFlight s = [] := by
  rw [inFlight, hb]
  rfl

/-- In BYPASS the adapter holds an access of the core or of the walk. -/
theorem inFlight_of_bypass (hb : s.adapter.busy = true) (hst : s.cache.eng.state = .bypass) :
    inFlight s = if s.walkOwner then [] else s.adapter.held.events := by
  rw [inFlight, hb, memLine_of_bypass hst]
  cases s.walkOwner <;> rfl

/-- A held access to RAM is no event in flight. -/
theorem inFlight_of_no_events (he : s.adapter.held.events = []) : inFlight s = [] := by
  rw [inFlight, he, ite_self]

/-- A bypass that starts or goes on while the adapter waits is owned by whoever was granted it. -/
theorem inFlight_next_of_bypass (h : OwnerInv P s) (hv : dcacheRvalid P s i = false)
    (hst : s.cache.eng.state = .bypass ∨ (dcacheGnt P s i = true ∧ busServed P s i = false))
    (hb : (next P s i).adapter.busy = true) : inFlight (next P s i) =
      if walkOwns P s i then [] else (next P s i).adapter.held.events := by
  rw [inFlight_of_bypass hb (bypass_next hv hst)]
  have howner : (next P s i).walkOwner = if dcacheRvalid P s i then false
      else if dcacheGnt P s i then walkSel P s i else s.walkOwner := rfl
  rw [howner, hv, walkOwns, if_neg Bool.false_ne_true]
  rcases hst with hst | ⟨hg, hs⟩
  · simp [gnt_of_bypass hst]
  · have hidle : s.walkOwner = false := by
      by_contra ho
      have hst := (h.walk (Bool.eq_true_of_not_eq_false ho)).1
      exact Bool.false_ne_true ((gnt_of_bypass hst).symm.trans hg)
    simp [hg, hidle]

/-- An adapter that takes an access over has been idle. -/
theorem idle_of_handshake_gnt (hi : AdapterInv P s) (hg : (handshake P s i).gnt = true) :
    memReq P s i = true ∧ s.adapter.busy = false ∧
      (P.memLatency ≠ 0 → (handshake P s i).rvalid = false) := by
  unfold handshake MemAdapter.gnt at hg
  by_cases hl : P.memLatency = 0
  · exact ⟨by simpa [hl] using hg, (hi.comb hl).1, fun h => absurd hl h⟩
  · simp only [hl, if_false, Bool.and_eq_true, Bool.not_eq_true'] at hg
    exact ⟨hg.1.1, hg.1.2, fun _ => by simpa [handshake, MemAdapter.rvalidOut, hl] using hg.2⟩

/-- The adapter takes over an access: the device sees it at once or later. -/
theorem inFlight_next_of_gnt (h : OwnerInv P s) (hg : (handshake P s i).gnt = true) :
    inFlight s ++ deviceIssue P s i = deviceFires P s i ++ inFlight (next P s i) := by
  obtain ⟨hr, hb, hrv⟩ := idle_of_handshake_gnt h.adapter hg
  have hbusy := adapter_busy_next (i := i) h.adapter
  have hheld := adapter_held_next (i := i) h.adapter
  rw [hg, Bool.true_or, Bool.true_and] at hbusy
  rw [deviceFires_eq, inFlight_of_not_busy hb, dataStore_of_not_busy hb, List.nil_append]
  cases hm : Dcache.memLine s.cache
  · have hgo := bypassGo_of_memReq hr hm
    have hs := unserved_of_bypassGo hgo
    have hgnt : dcacheGnt P s i = true := by
      rw [gnt_of_unserved hs, hgo, hg]
      rfl
    have howns : walkOwns P s i = walkSel P s i := by
      have hidle : s.walkOwner = false := by
        by_contra ho
        have hst := (h.walk (Bool.eq_true_of_not_eq_false ho)).1
        exact Bool.false_ne_true ((gnt_of_bypass hst).symm.trans hgnt)
      rw [walkOwns, hidle, hgnt, Bool.and_true, Bool.false_or]
    have hissue : deviceIssue P s i = if walkSel P s i then [] else (memStore P s i).events := by
      rw [deviceIssue, hgo, hg]
      cases walkSel P s i <;> rfl
    rw [hissue, howns]
    cases hfire : dataFire P s i
    · rw [hfire] at hbusy
      have hl : P.memLatency ≠ 0 := fun hl => by simp [dataFire, hl, hr] at hfire
      rw [if_pos ⟨hg, hl⟩] at hheld
      rw [inFlight_next_of_bypass h (rvalid_of_unserved hs (hrv hl)) (.inr ⟨hgnt, hs⟩) hbusy,
        hheld, howns]
      rfl
    · rw [hfire] at hbusy
      rw [inFlight_of_not_busy hbusy]
      cases walkSel P s i <;> simp
  · -- A word of a line.
    have he : (memStore P s i).events = [] :=
      StoreReq.events_of_ram (memStore_line h.system hm).1
    have hnext : inFlight (next P s i) = [] := by
      by_cases hl : P.memLatency = 0
      · exact inFlight_of_not_busy (by simp [hbusy, dataFire, hl, hr])
      · exact inFlight_of_no_events (by rw [hheld, if_pos ⟨hg, hl⟩, he])
    rw [deviceIssue, he, hnext]
    simp

/-- The adapter takes nothing over: what it holds it keeps, or the device sees it. -/
theorem inFlight_next_of_not_gnt (h : OwnerInv P s) (hg : (handshake P s i).gnt = false) :
    inFlight s ++ deviceIssue P s i = deviceFires P s i ++ inFlight (next P s i) := by
  have hbusy := adapter_busy_next (i := i) h.adapter
  have hheld := adapter_held_next (i := i) h.adapter
  have hissue : deviceIssue P s i = [] := by simp [deviceIssue, hg]
  rw [hg, Bool.false_or] at hbusy
  rw [hg, if_neg (by simp)] at hheld
  rw [deviceFires_eq, hissue, List.append_nil]
  cases hb : s.adapter.busy
  · -- Nothing is held and nothing is taken over, so nothing is made.
    have hfire : dataFire P s i = false := by
      unfold dataFire
      unfold handshake MemAdapter.gnt at hg
      by_cases hl : P.memLatency = 0
      · simpa [hl] using hg
      · simp [hl, MemAdapter.sampleNow, MemAdapter.sampleOnAccept, MemAdapter.gnt, hb] at hg ⊢
        intro hr hv
        exact absurd (hg hr) (by simp [hv])
    rw [hb, Bool.false_and] at hbusy
    rw [inFlight_of_not_busy hb, inFlight_of_not_busy hbusy, hfire]
    rfl
  · rw [hb, Bool.true_and] at hbusy
    rw [dataStore_of_busy h.adapter hb]
    rcases held_cases h.toBusInv hb i with hst | he
    · -- A bypass is held; it stays or is made.
      have howns : walkOwns P s i = s.walkOwner := by
        rw [walkOwns, gnt_of_bypass hst, Bool.and_false, Bool.or_false]
      rw [inFlight_of_bypass hb hst, howns]
      cases hfire : dataFire P s i
      · rw [hfire] at hbusy
        have hv : dcacheRvalid P s i = false := by
          refine rvalid_of_unserved (unserved_of_bypass hst) ?_
          have hl : P.memLatency ≠ 0 := fun hl =>
            Bool.false_ne_true ((h.adapter.comb hl).1.symm.trans hb)
          simpa [handshake, MemAdapter.rvalidOut, hl] using h.adapter.excl hb
        rw [inFlight_next_of_bypass h hv (.inl hst) hbusy, hheld, howns]
        rfl
      · rw [hfire] at hbusy
        rw [inFlight_of_not_busy hbusy]
        cases s.walkOwner <;> simp
    · rw [inFlight_of_no_events he, inFlight_of_no_events (hheld ▸ he), he, ite_self]
      rfl

/-- **What a device sees** was in the adapter, or has just been taken over. -/
theorem inFlight_next (h : OwnerInv P s) :
    inFlight s ++ deviceIssue P s i = deviceFires P s i ++ inFlight (next P s i) := by
  cases hg : (handshake P s i).gnt
  · exact inFlight_next_of_not_gnt h hg
  · exact inFlight_next_of_gnt h hg

/-- **One cycle**: what is pending or granted is what the devices see and what is pending next, in
that order. -/
theorem pending_next (h : OwnerInv P s) :
    pending s ++ deviceGrants P s i = deviceFires P s i ++ pending (next P s i) := by
  rw [pending, pending, List.append_assoc, queued_next h, ← List.append_assoc, inFlight_next h,
    List.append_assoc]

end DataBus

end Synapse32
