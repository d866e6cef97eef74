import Synapse32.Cache.Refinement
import Synapse32.Data.Memory

/-! # The data bus drives the cache with its memory

The adapter with the RAM behind it is a memory port that answers one request at a time, so the
invariant and the view of the cache carry over to the data side of `top.v`, whatever the
latency. -/

namespace Synapse32

open ByteLanes

/-- An adapter that never waits and answers at once, step by step. -/
theorem MemAdapter.next_eq {latency : ℕ} {a : MemAdapter}
    (hcomb : latency = 0 → a.busy = false ∧ a.rvalid = false)
    (hexcl : a.busy = true → a.rvalid = false) (req : Bool) (q : StoreReq) (v : Word) :
    a.next latency req q v =
      if a.rvalid then { a with rvalid := false }
      else if a.busy then
        if a.sampleNow latency then { a with rdata := v, rvalid := true, busy := false, count := 0 }
        else { a with count := (a.count + 1) % 2 ^ countWidth latency }
      else if req && latency != 0 then
        if latency = 1 then { a with held := q, rdata := v, rvalid := true }
        else { a with held := q, busy := true, count := 1 }
      else a := by
  unfold MemAdapter.next MemAdapter.sampleOnAccept MemAdapter.gnt MemAdapter.sampleNow
  obtain ⟨busy, count, held, rdata, rvalid⟩ := a
  by_cases hl : latency = 0
  · obtain ⟨hb, hv⟩ := hcomb hl
    simp only at hb hv
    simp [hl, hb, hv]
  · cases rvalid
    · cases busy
      · cases req <;> by_cases h1 : latency = 1 <;> simp [hl, h1]
      · simp [hl]
    · have hb : busy = false := by
        by_contra hb
        exact absurd (hexcl (by simpa using hb)) (by simp)
      simp [hl, hb]

namespace DataBus

variable {P : BusParams} {s : DataBus} {i : DataIn}

/-- The access the adapter holds, with the cache's flag that says it goes to RAM. -/
def heldReq (s : DataBus) : MemReq where
  addr := s.adapter.held.addr
  we := s.adapter.held.we
  be := s.adapter.held.be
  wdata := s.adapter.held.wdata
  line := Dcache.memLine s.cache

/-- The adapter as a memory port. -/
def port (s : DataBus) : MemPort :=
  if s.adapter.rvalid then .done (heldReq s) s.adapter.rdata
  else if s.adapter.busy then .waiting (heldReq s)
  else .idle

/-- The cache with its memory, as a part of the data side. -/
def system (s : DataBus) : CacheSystem := ⟨s.cache, port s, s.mem.words⟩

/-- The adapter's timing as the choices of a memory port. -/
def choice (P : BusParams) (s : DataBus) (i : DataIn) : MemChoice where
  accept := true
  access := P.memLatency == 0 || s.adapter.sampleNow P.memLatency ||
    s.adapter.sampleOnAccept P.memLatency (memReq P s i)
  respond := P.memLatency == 0 || s.adapter.rvalid
  device := memReadData P s i
  bus := s.adapter.rdataOut P.memLatency (memReadData P s i)

/-- **The adapter invariant**: without latency it holds nothing, it never waits and answers at
once, and a held access that is no line transfer goes to no RAM. -/
structure AdapterInv (P : BusParams) (s : DataBus) : Prop where
  comb : P.memLatency = 0 → s.adapter.busy = false ∧ s.adapter.rvalid = false
  excl : s.adapter.busy = true → s.adapter.rvalid = false
  away : s.adapter.busy = true → Dcache.memLine s.cache = false →
    isRam s.adapter.held.addr = false

/-! ## What goes to storage -/

/-- What the cache presents besides its line transfers is a request that it lets through. -/
theorem bypassGo_of_memReq (hr : memReq P s i = true) (hm : Dcache.memLine s.cache = false) :
    Dcache.bypassGo s.cache (dcacheReq P s i) = true := by
  simpa [memReq, Dcache.memReq, hm] using hr

/-- A bypass goes to no RAM. -/
theorem not_ram_of_bypass (hr : memReq P s i = true) (hm : Dcache.memLine s.cache = false) :
    isRam (memStore P s i).addr = false := by
  have hgo := bypassGo_of_memReq hr hm
  have hne : s.cache.eng.state ≠ .evictWrite ∧ s.cache.eng.state ≠ .fill := by
    simpa [Dcache.memLine] using hm
  have haddr : (memStore P s i).addr = (dcacheReq P s i).addr := by
    simp [memStore, Dcache.memAddr, hne.1, hne.2]
  simp only [Dcache.bypassGo, Bool.and_eq_true, Bool.not_eq_true', Dcache.cacheable] at hgo
  rw [haddr]
  exact hgo.1.1.2

/-- The address of a line transfer is aligned. -/
theorem memAddr_mod (hm : Dcache.memLine s.cache = true) (r : DcacheReq) :
    (Dcache.memAddr P.cache s.cache r).toNat % 4 = 0 := by
  unfold Dcache.memAddr
  rcases Dcache.memLine_iff.mp hm with hs | hs <;> simp [hs]

/-- The access at the storage side is that of the cache's line transfer, held or just presented. -/
theorem dataStore_line (hi : AdapterInv P s) (hs : SystemInv P.cache (system s))
    (hm : Dcache.memLine s.cache = true) : dataStore P s i = memStore P s i := by
  unfold dataStore MemAdapter.store
  by_cases hl : P.memLatency = 0
  · rw [if_pos hl]
  · rw [if_neg hl]
    cases hb : s.adapter.busy
    · rfl
    · have hport : port s = .waiting (heldReq s) := by simp [port, hi.excl hb, hb]
      have hp := hs.port
      change PortInv P.cache s.cache s.mem.words (port s) at hp
      rw [hport] at hp
      have hq := (hp.line hm).2 (dcacheReq P s i)
      simp only [heldReq, Dcache.memRequest, MemReq.mk.injEq] at hq
      obtain ⟨h1, h2, h3, h4, -⟩ := hq
      simp only [if_true, memStore]
      cases hh : s.adapter.held with
      | mk a w b v =>
        rw [hh] at h1 h2 h3 h4
        simp only at h1 h2 h3 h4
        rw [h1, h2, h3, h4]

/-- **A line transfer reads the RAM's word.** -/
theorem memReadData_line (hi : AdapterInv P s) (hs : SystemInv P.cache (system s))
    (hm : Dcache.memLine s.cache = true) (hreq : dataStoreReq P s i = true) :
    memReadData P s i =
      s.mem.words (DcacheParams.wordAddr (Dcache.memAddr P.cache s.cache (dcacheReq P s i))) := by
  have hd := dataStore_line (i := i) hi hs hm
  have hram : isRam (dataStore P s i).addr = true := by
    rw [hd]
    exact Dcache.isRam_memAddr hs.cache hm
  have hdev : deviceAccess P s i = false := isDevice_eq_false_of_isRam hram
  have hacc : ramAccess P s i = true := by
    simp only [isRam, Bool.or_eq_true] at hram
    unfold ramAccess
    rw [hdev]
    cases translatedDataAccess i <;> rcases hram with h | h <;> simp [h]
  have hread : instrReadData P s i = s.mem.read true (dataStore P s i).addr 0b010#3 := by
    unfold instrReadData busRamAccess
    rw [hm, hreq]
    cases (dataStore P s i).we <;> simp
  rw [memReadData, hdev, hacc, hread]
  simp only [Bool.false_eq_true, if_false, if_true]
  rw [hd]
  exact UnifiedMem.read_word (Dcache.isRam_memAddr hs.cache hm) (memAddr_mod hm _)

/-! ## The adapter as a port -/

/-- The cache system's request is the one on the bus. -/
theorem request_system : CacheSystem.request P.cache (system s) (dcacheReq P s i) =
    if memReq P s i then some (Dcache.memRequest P.cache s.cache (dcacheReq P s i)) else none :=
  rfl

/-- An adapter at rest leaves the port idle. -/
theorem port_of_idle (hb : s.adapter.busy = false) (hv : s.adapter.rvalid = false) :
    port s = .idle := by
  simp [port, hb, hv]

/-- A busy adapter makes the port wait with what it holds. -/
theorem port_of_busy (hi : AdapterInv P s) (hb : s.adapter.busy = true) :
    port s = .waiting (heldReq s) := by
  simp [port, hi.excl hb, hb]

/-- An adapter that answers gives the port the word it read. -/
theorem port_of_rvalid (hv : s.adapter.rvalid = true) :
    port s = .done (heldReq s) s.adapter.rdata := by
  simp [port, hv]

/-- The value read at the access: the RAM's word in a line transfer, else what is addressed. -/
theorem access_value (hi : AdapterInv P s) (hs : SystemInv P.cache (system s))
    (hreq : dataStoreReq P s i = true) {q : MemReq} (hline : q.line = Dcache.memLine s.cache)
    (hq : q.line = true → q = Dcache.memRequest P.cache s.cache (dcacheReq P s i)) :
    (if q.line then s.mem.words (DcacheParams.wordAddr q.addr) else memReadData P s i) =
      memReadData P s i := by
  cases hl : q.line
  · rfl
  · rw [hl] at hline
    rw [memReadData_line hi hs hline.symm hreq, hq hl]
    rfl

/-- The held access of a line transfer is the cache's request. -/
theorem heldReq_line (hi : AdapterInv P s) (hs : SystemInv P.cache (system s))
    (hb : s.adapter.busy = true) (hl : (heldReq s).line = true) :
    heldReq s = Dcache.memRequest P.cache s.cache (dcacheReq P s i) := by
  have hp := hs.port
  change PortInv P.cache s.cache s.mem.words (port s) at hp
  rw [port_of_busy hi hb] at hp
  exact (hp.line hl).2 _

/-- The cycle's port, past acceptance and access. -/
theorem portAfter_system (hi : AdapterInv P s) (hs : SystemInv P.cache (system s)) :
    CacheSystem.portAfter P.cache (system s) (dcacheReq P s i) (choice P s i) =
      if s.adapter.rvalid then .done (heldReq s) s.adapter.rdata
      else if s.adapter.busy then
        if s.adapter.sampleNow P.memLatency then .done (heldReq s) (memReadData P s i)
        else .waiting (heldReq s)
      else if memReq P s i then
        if P.memLatency = 0 ∨ P.memLatency = 1 then
          .done (Dcache.memRequest P.cache s.cache (dcacheReq P s i)) (memReadData P s i)
        else .waiting (Dcache.memRequest P.cache s.cache (dcacheReq P s i))
      else .idle := by
  unfold CacheSystem.portAfter
  change MemPort.accessed (MemPort.accepted (port s) _ _) s.mem.words _ = _
  rw [request_system]
  -- The adapter answers, waits with an access, or takes a new one.
  cases hv : s.adapter.rvalid
  · cases hb : s.adapter.busy
    · rw [port_of_idle hb hv]
      cases hr : memReq P s i
      · rfl
      · have hstore : dataStoreReq P s i = true := by
          simp [dataStoreReq, MemAdapter.storeReq, MemAdapter.gnt, hr, hb, hv]
        -- Up to latency 1 the access is made in the cycle in which it is taken.
        have hacc : (choice P s i).access = true ↔ P.memLatency = 0 ∨ P.memLatency = 1 := by
          simp only [choice, MemAdapter.sampleNow, MemAdapter.sampleOnAccept, MemAdapter.gnt, hb,
            hv, hr, Bool.or_eq_true, beq_iff_eq]
          by_cases h0 : P.memLatency = 0 <;> simp [h0]
        simp only [MemPort.accepted, choice, if_true, MemPort.accessed, Bool.false_eq_true,
          if_false]
        by_cases h01 : P.memLatency = 0 ∨ P.memLatency = 1
        · have htrue := hacc.mpr h01
          simp only [choice] at htrue
          rw [if_pos htrue, if_pos h01]
          congr 1
          exact access_value hi hs hstore rfl fun _ => rfl
        · have hfalse := mt hacc.mp h01
          simp only [choice] at hfalse
          rw [if_neg hfalse, if_neg h01]
    · rw [port_of_busy hi hb]
      have hl : P.memLatency ≠ 0 := fun h0 => by simp [(hi.comb h0).1] at hb
      have hstore : dataStoreReq P s i = true := by
        simp [dataStoreReq, MemAdapter.storeReq, hb, hl]
      have hacc : (choice P s i).access = s.adapter.sampleNow P.memLatency := by
        simp [choice, MemAdapter.sampleOnAccept, MemAdapter.gnt, hb, hl]
      simp only [MemPort.accepted, MemPort.accessed, hacc, if_true, Bool.false_eq_true, if_false]
      cases hn : s.adapter.sampleNow P.memLatency
      · rfl
      · simp only [if_true]
        congr 1
        exact access_value hi hs hstore rfl fun hq => heldReq_line hi hs hb hq
  · rw [port_of_rvalid hv]
    rfl

/-- **The memory side of the cache** is the port's. -/
theorem response_system (hi : AdapterInv P s) (hs : SystemInv P.cache (system s)) :
    CacheSystem.response P.cache (system s) (dcacheReq P s i) (choice P s i) = memRsp P s i := by
  have hpa := portAfter_system (i := i) hi hs
  unfold CacheSystem.response memRsp
  rw [hpa]
  simp only [MemRsp.mk.injEq]
  refine ⟨?_, ?_, ?_⟩
  · -- The grant.
    change MemPort.gnt (port s) (CacheSystem.request P.cache (system s) _) _ = _
    rw [request_system]
    unfold MemAdapter.gnt
    cases hv : s.adapter.rvalid
    · cases hb : s.adapter.busy
      · rw [port_of_idle hb hv]
        cases memReq P s i <;> simp [MemPort.gnt, choice]
      · have hl : P.memLatency ≠ 0 := fun h0 => by simp [(hi.comb h0).1] at hb
        rw [port_of_busy hi hb]
        simp [MemPort.gnt, hl]
    · have hl : P.memLatency ≠ 0 := fun h0 => by simp [(hi.comb h0).2] at hv
      rw [port_of_rvalid hv]
      simp [MemPort.gnt, hl]
  · -- The answer, which without latency is that of the access just taken.
    unfold MemPort.rvalid MemAdapter.rvalidOut
    by_cases hl : P.memLatency = 0
    · obtain ⟨hb, hv⟩ := hi.comb hl
      cases hr : memReq P s i <;> simp [hb, hv, hl, choice]
    · have hresp : (choice P s i).respond = s.adapter.rvalid := by simp [choice, hl]
      rw [hresp, if_neg hl]
      cases hv : s.adapter.rvalid
      · simp only [Bool.false_eq_true, if_false]
        split <;> rfl
      · rfl
  · unfold MemPort.rdata
    by_cases hl : P.memLatency = 0
    · obtain ⟨hb, hv⟩ := hi.comb hl
      cases hr : memReq P s i <;> simp [hb, hv, hl, choice, MemAdapter.rdataOut]
    · have hresp : (choice P s i).respond = s.adapter.rvalid := by simp [choice, hl]
      have hbus : (choice P s i).bus = s.adapter.rdata := by
        simp [choice, MemAdapter.rdataOut, hl]
      rw [hresp, hbus, MemAdapter.rdataOut, if_neg hl]
      cases hv : s.adapter.rvalid
      · simp only [Bool.false_eq_true, if_false]
        split <;> rfl
      · rfl

/-- The cache's step is that of the cache with its memory. -/
theorem cache_next (hi : AdapterInv P s) (hs : SystemInv P.cache (system s)) :
    (next P s i).cache =
      (CacheSystem.next P.cache (system s) (dcacheReq P s i) (choice P s i)).cache := by
  change s.cache.next P.cache (dcacheReq P s i) (memRsp P s i) = _
  rw [← response_system hi hs]
  rfl

/-- A request that stays in the port keeps the cache where it was. -/
theorem memLine_next (hi : AdapterInv P s) (hs : SystemInv P.cache (system s)) {q : MemReq}
    (hp : (CacheSystem.next P.cache (system s) (dcacheReq P s i) (choice P s i)).port =
        .waiting q ∨
      ∃ v, (CacheSystem.next P.cache (system s) (dcacheReq P s i) (choice P s i)).port =
        .done q v) :
    Dcache.memLine (next P s i).cache = q.line := by
  have hown : PortOwner P.cache (next P s i).cache q := by
    have hpi := portInv_next (r := dcacheReq P s i) (c := choice P s i) hs.cache hs.port
    rw [← cache_next hi hs] at hpi
    rcases hp with hp | ⟨v, hp⟩ <;> rw [hp] at hpi
    · exact hpi
    · exact hpi.1
  cases hl : q.line
  · simp [Dcache.memLine, hown.bypass hl]
  · exact (hown.line hl).1

/-- The line transfer's access is a full aligned word of RAM. -/
theorem memStore_line (hs : SystemInv P.cache (system s)) (hm : Dcache.memLine s.cache = true) :
    isRam (memStore P s i).addr = true ∧ (memStore P s i).addr.toNat % 4 = 0 ∧
      (memStore P s i).be = 0b1111#4 :=
  ⟨Dcache.isRam_memAddr hs.cache hm, memAddr_mod hm _, by simp [memStore, Dcache.memBe, hm]⟩

/-- **The RAM after the edge** is the port's. -/
theorem words_next (hi : AdapterInv P s) (hs : SystemInv P.cache (system s)) :
    (next P s i).mem.words =
      CacheSystem.ramAfter P.cache (system s) (dcacheReq P s i) (choice P s i) := by
  unfold CacheSystem.ramAfter
  change (if dataWriteFire P s i && busRamAccess P s i then s.mem.write (dataStore P s i).addr
    (dataStore P s i).be (dataStore P s i).wdata else s.mem).words =
      MemPort.ramAfter (MemPort.accepted (port s) _ _) s.mem.words _
  rw [request_system]
  -- A line transfer is to RAM, whatever its address; a bypass is to none.
  have hbus : Dcache.memLine s.cache = true → busRamAccess P s i = true := fun hm => by
    simp [busRamAccess, hm]
  cases hv : s.adapter.rvalid
  · cases hb : s.adapter.busy
    · rw [port_of_idle hb hv]
      have hstore : dataStore P s i = memStore P s i := by
        simp [dataStore, MemAdapter.store, hb]
      cases hr : memReq P s i
      · have hfire : dataWriteFire P s i = false := by
          simp [dataWriteFire, MemAdapter.writeFire, MemAdapter.sampleNow,
            MemAdapter.sampleOnAccept, MemAdapter.gnt, hr, hb]
        rw [hfire]
        rfl
      · have hfire : dataWriteFire P s i =
            ((choice P s i).access && (memStore P s i).we) := by
          simp only [dataWriteFire, MemAdapter.writeFire, choice, MemAdapter.sampleNow,
            MemAdapter.sampleOnAccept, MemAdapter.gnt, hr, hb, hv]
          by_cases h0 : P.memLatency = 0
          · simp [h0]
          · have h0' : (P.memLatency == 0) = false := by simpa using h0
            simp [h0, h0']
        rw [hstore, hfire, UnifiedMem.words_write_if s.mem (memStore P s i)
          (memStore_line hs) (not_ram_of_bypass hr) hbus, Bool.and_right_comm]
        rfl
    · rw [port_of_busy hi hb]
      have hl : P.memLatency ≠ 0 := fun h0 => by simp [(hi.comb h0).1] at hb
      have hstore : dataStore P s i = s.adapter.held := by
        simp [dataStore, MemAdapter.store, hb, hl]
      have hl' : (P.memLatency == 0) = false := by simpa using hl
      have hfire : dataWriteFire P s i = ((choice P s i).access && s.adapter.held.we) := by
        simp [dataWriteFire, MemAdapter.writeFire, choice, MemAdapter.sampleOnAccept,
          MemAdapter.gnt, hb, hl, hl']
      rw [hstore, hfire, UnifiedMem.words_write_if s.mem s.adapter.held
        (fun hm => by rw [← hstore, dataStore_line hi hs hm]; exact memStore_line hs hm)
        (hi.away hb) hbus, Bool.and_right_comm]
      rfl
  · rw [port_of_rvalid hv]
    have hb : s.adapter.busy = false := by
      by_contra hb
      rw [hi.excl (by simpa using hb)] at hv
      exact absurd hv (by simp)
    have hl : P.memLatency ≠ 0 := fun h0 => by simp [(hi.comb h0).2] at hv
    have hfire : dataWriteFire P s i = false := by
      simp [dataWriteFire, MemAdapter.writeFire, MemAdapter.sampleNow,
        MemAdapter.sampleOnAccept, MemAdapter.gnt, hv, hb, hl]
    rw [hfire]
    rfl

/-- **What the adapter does in a cycle**, and the port it is after it. -/
inductive AdapterStep (P : BusParams) (s : DataBus) (i : DataIn) : MemAdapter → MemPort → Prop
  | answered (hv : s.adapter.rvalid = true) (hb : s.adapter.busy = false) :
      AdapterStep P s i { s.adapter with rvalid := false } .idle
  | sampled (hv : s.adapter.rvalid = false) (hb : s.adapter.busy = true) :
      AdapterStep P s i
        { s.adapter with rdata := memReadData P s i, rvalid := true, busy := false, count := 0 }
        (.done (heldReq s) (memReadData P s i))
  | waited (hv : s.adapter.rvalid = false) (hb : s.adapter.busy = true) :
      AdapterStep P s i
        { s.adapter with
          count := (s.adapter.count + 1) % 2 ^ MemAdapter.countWidth P.memLatency }
        (.waiting (heldReq s))
  | sampledOnAccept (hv : s.adapter.rvalid = false) (hb : s.adapter.busy = false)
      (hr : memReq P s i = true) (hl : P.memLatency ≠ 0) :
      AdapterStep P s i
        { s.adapter with held := memStore P s i, rdata := memReadData P s i, rvalid := true }
        (.done (Dcache.memRequest P.cache s.cache (dcacheReq P s i)) (memReadData P s i))
  | accepted (hv : s.adapter.rvalid = false) (hb : s.adapter.busy = false)
      (hr : memReq P s i = true) (hl : P.memLatency ≠ 0) :
      AdapterStep P s i { s.adapter with held := memStore P s i, busy := true, count := 1 }
        (.waiting (Dcache.memRequest P.cache s.cache (dcacheReq P s i)))
  | idle (hv : s.adapter.rvalid = false) (hb : s.adapter.busy = false) :
      AdapterStep P s i s.adapter .idle

/-- An adapter that answers is busy no longer. -/
theorem busy_of_rvalid (hi : AdapterInv P s) (hv : s.adapter.rvalid = true) :
    s.adapter.busy = false := by
  by_contra hb
  rw [hi.excl (by simpa using hb)] at hv
  exact absurd hv (by simp)

/-- Every cycle is one of these. -/
theorem adapterStep_next (hi : AdapterInv P s) (hs : SystemInv P.cache (system s)) :
    AdapterStep P s i (next P s i).adapter
      (CacheSystem.next P.cache (system s) (dcacheReq P s i) (choice P s i)).port := by
  have hnext : (next P s i).adapter = _ :=
    MemAdapter.next_eq hi.comb hi.excl (memReq P s i) (memStore P s i) (memReadData P s i)
  have hport : (CacheSystem.next P.cache (system s) (dcacheReq P s i) (choice P s i)).port =
      (CacheSystem.portAfter P.cache (system s) (dcacheReq P s i) (choice P s i)).responded
        (choice P s i) := rfl
  rw [portAfter_system hi hs] at hport
  by_cases hl : P.memLatency = 0
  · obtain ⟨hb, hv⟩ := hi.comb hl
    have hresp : (choice P s i).respond = true := by simp [choice, hl]
    -- Without latency the port is idle again after every cycle.
    have hidle : (CacheSystem.next P.cache (system s) (dcacheReq P s i) (choice P s i)).port =
        .idle := by
      rw [hport]
      cases hr : memReq P s i <;> simp [hb, hv, hl, hresp, MemPort.responded]
    rw [hnext, hidle]
    simpa [hb, hv, hl] using AdapterStep.idle hv hb
  · have hresp : (choice P s i).respond = s.adapter.rvalid := by simp [choice, hl]
    rw [hnext, hport]
    unfold MemPort.responded
    rw [hresp]
    cases hv : s.adapter.rvalid
    · cases hb : s.adapter.busy
      · cases hr : memReq P s i
        · simpa using AdapterStep.idle hv hb
        · by_cases h1 : P.memLatency = 1
          · simpa [hl, h1, hb] using AdapterStep.sampledOnAccept hv hb hr hl
          · simpa [hl, h1, hv] using AdapterStep.accepted hv hb hr hl
      · cases hn : s.adapter.sampleNow P.memLatency
        · simpa [hb, hv] using AdapterStep.waited (P := P) (i := i) hv hb
        · simpa using AdapterStep.sampled (P := P) (i := i) hv hb
    · have hb := busy_of_rvalid hi hv
      simpa using AdapterStep.answered (P := P) (i := i) hv hb

/-- The adapter's next state is the port's. -/
theorem port_next (hi : AdapterInv P s) (hs : SystemInv P.cache (system s)) :
    port (next P s i) =
      (CacheSystem.next P.cache (system s) (dcacheReq P s i) (choice P s i)).port := by
  have hml := fun q => memLine_next (i := i) hi hs (q := q)
  unfold port heldReq
  generalize hp : (CacheSystem.next P.cache (system s) (dcacheReq P s i) (choice P s i)).port = p
    at hml
  generalize ha : (next P s i).adapter = a
  have hstep := hp ▸ ha ▸ adapterStep_next (i := i) hi hs
  cases hstep with
  | answered hv hb => simp [hb]
  | sampled hv hb => simp [hml _ (Or.inr ⟨_, rfl⟩), heldReq]
  | waited hv hb => simp [hml _ (Or.inl rfl), hv, hb, heldReq]
  | sampledOnAccept hv hb hr hl =>
    simp only [hml _ (Or.inr ⟨_, rfl⟩), if_true]
    rfl
  | accepted hv hb hr hl =>
    simp only [hml _ (Or.inl rfl), if_true, hv]
    rfl
  | idle hv hb => simp [hv, hb]

/-- **The data side simulates the cache with its memory.** -/
theorem system_next (hi : AdapterInv P s) (hs : SystemInv P.cache (system s)) :
    system (next P s i) =
      CacheSystem.next P.cache (system s) (dcacheReq P s i) (choice P s i) := by
  have hsys : system (next P s i) =
      ⟨(next P s i).cache, port (next P s i), (next P s i).mem.words⟩ := rfl
  rw [hsys, port_next hi hs, cache_next hi hs, words_next hi hs]
  rfl

/-- The adapter invariant after the edge. -/
theorem AdapterInv.next (hi : AdapterInv P s) (hs : SystemInv P.cache (system s)) (i : DataIn) :
    AdapterInv P (next P s i) := by
  have hml := fun q => memLine_next (i := i) hi hs (q := q)
  have hstep := adapterStep_next (i := i) hi hs
  generalize hp : (CacheSystem.next P.cache (system s) (dcacheReq P s i) (choice P s i)).port = p
    at hml hstep
  constructor <;> generalize (DataBus.next P s i).adapter = a at hstep ⊢ <;> cases hstep
  case comb.answered hv hb => exact fun _ => ⟨hb, rfl⟩
  case comb.sampled hv hb => exact fun hl => absurd (hi.comb hl).1 (by simp [hb])
  case comb.waited hv hb => exact fun hl => absurd (hi.comb hl).1 (by simp [hb])
  case comb.sampledOnAccept hv hb hr hl => exact fun h => absurd h hl
  case comb.accepted hv hb hr hl => exact fun h => absurd h hl
  case comb.idle hv hb => exact fun _ => ⟨hb, hv⟩
  case excl.answered hv hb => exact fun _ => rfl
  case excl.sampled hv hb => exact fun h => absurd h (by simp)
  case excl.waited hv hb => exact fun _ => hv
  case excl.sampledOnAccept hv hb hr hl => exact fun h => absurd h (by simp [hb])
  case excl.accepted hv hb hr hl => exact fun _ => hv
  case excl.idle hv hb => exact fun _ => hv
  case away.answered hv hb => exact fun h => absurd h (by simp [hb])
  case away.sampled hv hb => exact fun h => absurd h (by simp)
  case away.waited hv hb =>
    exact fun _ hline => hi.away hb ((hml _ (Or.inl rfl)).symm.trans hline)
  case away.sampledOnAccept hv hb hr hl => exact fun h => absurd h (by simp [hb])
  case away.accepted hv hb hr hl =>
    exact fun _ hline => not_ram_of_bypass hr ((hml _ (Or.inl rfl)).symm.trans hline)
  case away.idle hv hb => exact fun h => absurd h (by simp [hb])

end DataBus

end Synapse32
