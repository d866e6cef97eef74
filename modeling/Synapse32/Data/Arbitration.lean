import Synapse32.Data.Buffer
import Synapse32.Data.Bus

/-! # Arbitration at the data cache

The core's loads, the store buffer and the walker share one port of the cache. Whatever accesses
they make, to RAM or to devices, the buffered writes to RAM applied to the cache's view are the
memory that the accepted writes have left. -/

namespace Synapse32

open ByteLanes

/-! ## Pending writes over a memory -/

/-- A memory after the writes of a queue, the oldest first. -/
def applyWrites (m : ℕ → BitVec 8) (es : List StoreEntry) : ℕ → BitVec 8 :=
  es.foldl (fun m e => store m e.addr.toNat e.be e.data) m

/-- No entry writes nothing. -/
@[simp] theorem applyWrites_nil (m : ℕ → BitVec 8) : applyWrites m [] = m := rfl

/-- Entries are written one after the other. -/
@[simp] theorem applyWrites_cons (m : ℕ → BitVec 8) (e : StoreEntry) (es : List StoreEntry) :
    applyWrites m (e :: es) = applyWrites (store m e.addr.toNat e.be e.data) es := rfl

/-- Writes compose. -/
theorem applyWrites_append (m : ℕ → BitVec 8) (es es' : List StoreEntry) :
    applyWrites m (es ++ es') = applyWrites (applyWrites m es) es' :=
  List.foldl_append

/-- Writes to other words leave a word alone. -/
theorem applyWrites_of_ne_word {m : ℕ → BitVec 8} {es : List StoreEntry}
    (hfit : ∀ e ∈ es, AlignedStore e.addr e.be) {x : ℕ}
    (hx : ∀ e ∈ es, e.addr.toNat / 4 ≠ x / 4) : applyWrites m es x = m x := by
  induction es generalizing m with
  | nil => rfl
  | cons e t ih =>
    rw [applyWrites_cons, ih (fun f hf => hfit f (List.mem_cons_of_mem _ hf))
      (fun f hf => hx f (List.mem_cons_of_mem _ hf))]
    exact store_of_ne_word _ (hfit e List.mem_cons_self).fitsWord
      (hx e List.mem_cons_self).symm

namespace DataBus

variable {P : BusParams} {s : DataBus} {i : DataIn}

/-! ## The invariant -/

/-- **The invariant of the data side.** -/
structure BusInv (P : BusParams) (s : DataBus) : Prop where
  adapter : AdapterInv P s
  system : SystemInv P.cache (system s)
  count : s.buffer.count ≤ P.storeBufferDepth

/-- The walker asks for whole words: a PTE address ends in `2'b00`. -/
def WalkAligned (i : DataIn) : Prop := i.walkReq = true → i.walkAddr.toNat % 4 = 0

/-- The registers after reset satisfy the invariant. -/
theorem busInv_reset (data : ℕ → ℕ → Word) (tag : ℕ → ℕ → ℕ) (dataRd : ℕ → Word)
    (tagRd : ℕ → ℕ) (mem : UnifiedMem) :
    BusInv P (reset (Dcache.reset data tag dataRd tagRd) mem) where
  adapter := ⟨fun _ => ⟨rfl, rfl⟩, fun h => absurd h (by simp [reset, MemAdapter.reset]),
    fun h => absurd h (by simp [reset, MemAdapter.reset])⟩
  system := ⟨Dcache.inv_reset P.cache data tag dataRd tagRd _, trivial⟩
  count := Nat.zero_le _

/-! ## The shared port -/

/-- The cache's request of the cycle is served. -/
def busServed (P : BusParams) (s : DataBus) (i : DataIn) : Bool :=
  Dcache.served P.cache s.cache (dcacheReq P s i) (memRsp P s i)

/-- The cache system serves what the bus does. -/
theorem serves_system (h : BusInv P s) :
    CacheSystem.serves P.cache (system s) (dcacheReq P s i) (choice P s i) = busServed P s i := by
  rw [CacheSystem.serves_eq, response_system h.adapter h.system]
  rfl

/-- A write of the core is accepted while there is room for it. -/
theorem not_full_of_push (h : storeBufPushReq P s i = true) :
    cpuDataBusReq i = true ∧ i.memWriteEn = true ∧ s.buffer.full P.storeBufferDepth = false := by
  simpa [storeBufPushReq, and_assoc] using h

/-- Of the three masters at most one is selected. -/
theorem drainSel_of_walkSel (h : walkSel P s i = true) : drainSel P s i = false := by
  simp only [walkSel, Bool.and_eq_true, Bool.not_eq_true'] at h
  simp [drainSel, h.2]

/-- A store that drains keeps loads waiting. -/
theorem loadGo_of_drainSel (h : drainSel P s i = true) : cpuLoadGo P s i = false := by
  simp only [drainSel, Bool.and_eq_true, Bool.not_eq_true'] at h
  exact h.2

/-! ## Grants and answers -/

/-- For a cacheable request, granted, answered and served are one. -/
theorem gnt_of_ram (hram : isRam (dcacheReq P s i).addr = true) :
    dcacheGnt P s i = busServed P s i := by
  have hgo : Dcache.bypassGo s.cache (dcacheReq P s i) = false := by
    simp [Dcache.bypassGo, Dcache.cacheable, hram]
  unfold dcacheGnt Dcache.gnt
  rw [hgo, Bool.false_and, Bool.or_false]
  rfl

/-- Whatever is served is granted and answered. -/
theorem gnt_of_served (hs : busServed P s i = true) :
    dcacheGnt P s i = true ∧ dcacheRvalid P s i = true := by
  have hs' : Dcache.served P.cache s.cache (dcacheReq P s i) (handshake P s i) = true := hs
  unfold dcacheGnt dcacheRvalid Dcache.gnt Dcache.rvalid
  rw [hs']
  exact ⟨rfl, rfl⟩

/-- An idle cache is not answered by a port that waits. -/
theorem rvalid_of_bypassGo (h : BusInv P s)
    (hgo : Dcache.bypassGo s.cache (dcacheReq P s i) = true)
    (hv : (handshake P s i).rvalid = true) : (handshake P s i).gnt = true := by
  have hidle : s.cache.eng.state = .idle := by
    simp only [Dcache.bypassGo, Bool.and_eq_true, beq_iff_eq] at hgo
    exact hgo.1.2
  by_cases hl : P.memLatency = 0
  · simpa [handshake, MemAdapter.gnt, MemAdapter.rvalidOut, hl] using hv
  · -- a registered response belongs to a line transfer or to a bypass in flight
    have hvq : s.adapter.rvalid = true := by
      simpa [handshake, MemAdapter.rvalidOut, hl] using hv
    have hp := h.system.port
    change PortInv P.cache s.cache s.mem.words (port s) at hp
    rw [port_of_rvalid hvq] at hp
    cases hline : (heldReq s).line
    · exact absurd (hp.1.bypass hline) (by simp [hidle])
    · have hm := (hp.1.line hline).1
      simp [Dcache.memLine, hidle] at hm

/-- **What an answer is for**: the request served in this cycle, a bypass granted in this cycle, or
a bypass in flight. -/
theorem rvalid_cases (h : BusInv P s) (hv : dcacheRvalid P s i = true) :
    busServed P s i = true ∨
      (Dcache.bypassGo s.cache (dcacheReq P s i) = true ∧ dcacheGnt P s i = true) ∨
      s.cache.eng.state = .bypass := by
  unfold dcacheRvalid Dcache.rvalid at hv
  simp only [Bool.or_eq_true, Bool.and_eq_true, beq_iff_eq] at hv
  rcases hv with hs | ⟨hr, hgo | hst⟩
  · exact Or.inl hs
  · refine Or.inr (Or.inl ⟨hgo, ?_⟩)
    simp [dcacheGnt, Dcache.gnt, hgo, rvalid_of_bypassGo h hgo hr]
  · exact Or.inr (Or.inr hst)

/-- Nothing is granted while a bypass is in flight. -/
theorem gnt_of_bypass (hs : s.cache.eng.state = .bypass) : dcacheGnt P s i = false := by
  have hl : Dcache.lookup P.cache s.cache (dcacheReq P s i) (handshake P s i) = false := by
    simp [Dcache.lookup, Dcache.lookupBlock, hs]
  have hserved : Dcache.served P.cache s.cache (dcacheReq P s i) (handshake P s i) = false := by
    simp [Dcache.served, Dcache.storeHit, Dcache.storeMerge, Dcache.storeAlloc, Dcache.loadHit, hl]
  simp [dcacheGnt, Dcache.gnt, hserved, Dcache.bypassGo, hs]

/-! ## One cycle -/

/-- A drain takes an entry that is there. -/
theorem pos_of_pop (hp : storeBufPop P s i = true) : 0 < s.buffer.count := by
  simp only [storeBufPop, Bool.and_eq_true, Bool.not_eq_true', StoreBuffer.empty,
    beq_eq_false_iff_ne] at hp
  omega

/-- What enters the buffer is a store the core presents. -/
theorem push_of_storeBufPush (hp : storeBufPush P s i = true) : storeBufPushReq P s i = true := by
  simp only [storeBufPush, Bool.and_eq_true] at hp
  exact hp.1

/-- **A store enters only where there is room.** -/
theorem room_of_push (h : BusInv P s) (hp : storeBufPush P s i = true) :
    s.buffer.count - (storeBufPop P s i).toNat < P.storeBufferDepth :=
  lt_of_le_of_lt (Nat.sub_le _ _) (StoreBuffer.full_eq_false P.depth_le h.count
    (not_full_of_push (push_of_storeBufPush hp)).2.2)

/-- The queue after the edge. -/
theorem entries_next (h : BusInv P s) : (next P s i).buffer.entries =
    (if storeBufPop P s i then s.buffer.entries.tail else s.buffer.entries) ++
      if storeBufPush P s i then [pushEntry i] else [] :=
  StoreBuffer.entries_next P.depth_pos P.depth_le h.count _ pos_of_pop (room_of_push h)

/-- The invariant of the data side after the edge. -/
theorem BusInv.next (h : BusInv P s) (i : DataIn) : BusInv P (next P s i) where
  adapter := h.adapter.next h.system i
  system := by
    rw [system_next h.adapter h.system]
    exact h.system.next _ _
  count := by
    change (s.buffer.next _ _ _ _).count ≤ _
    rw [StoreBuffer.count_next P.depth_le h.count _ pos_of_pop (room_of_push h)]
    have hroom := room_of_push (i := i) h
    have hcount := h.count
    cases hp : storeBufPush P s i
    · simp only [Bool.toNat_false]
      omega
    · have hlt := hroom hp
      simp only [Bool.toNat_true]
      omega

/-- An entry of the queue after the edge was there, or is the core's write. -/
theorem mem_entries_next (h : BusInv P s) {e : StoreEntry}
    (he : e ∈ (DataBus.next P s i).buffer.entries) :
    e ∈ s.buffer.entries ∨ (e = pushEntry i ∧ storeBufPushReq P s i = true) := by
  rw [entries_next h, List.mem_append] at he
  rcases he with he | he
  · split at he
    · exact Or.inl (List.mem_of_mem_tail he)
    · exact Or.inl he
  · split at he
    · rename_i hp
      exact Or.inr ⟨by simpa using he, push_of_storeBufPush hp⟩
    · exact absurd he (by simp)

/-! ## Devices among the accesses -/

/-- **The queue with devices in it**: the buffered writes to RAM are aligned, and a drain that owns
the port is of a device write, the oldest of the queue, which the cache has let through. -/
structure QueueInv (P : BusParams) (s : DataBus) : Prop extends BusInv P s where
  aligned : ∀ e ∈ s.buffer.entries, isRam e.addr = true → AlignedStore e.addr e.be
  drain : s.drainOwner = true → s.cache.eng.state = .bypass ∧ s.buffer.empty = false ∧
    isRam (s.buffer.slot 0).addr = false

/-- The core's access of the cycle, if there is one and it is to RAM, is aligned. -/
def AlignedAccess (i : DataIn) : Prop :=
  cpuDataBusReq i = true → isRam i.physAddr = true →
    if i.memWriteEn = true then AlignedStore i.physAddr i.byteEnable
    else AlignedLoad i.physAddr i.loadType

/-- The buffered writes that go to RAM. -/
def ramWrites (es : List StoreEntry) : List StoreEntry := es.filter fun e => isRam e.addr

/-- **The RAM that the data side stands for**: the buffered RAM writes over the view of the
cache. -/
def ramMemory (P : BusParams) (s : DataBus) : ℕ → BitVec 8 :=
  applyWrites (bytes (CacheSystem.view P.cache (system s))) (ramWrites s.buffer.entries)

/-- The request of a drain is the write being drained. -/
theorem dcacheReq_of_drainSel (h : drainSel P s i = true) :
    (dcacheReq P s i).req = true ∧ (dcacheReq P s i).we = true ∧
      (dcacheReq P s i).addr = (drainEntry s i).addr ∧
      (dcacheReq P s i).be = (drainEntry s i).be ∧
      (dcacheReq P s i).wdata = (drainEntry s i).data := by
  have hw : walkSel P s i = false := by
    by_contra hw
    rw [drainSel_of_walkSel (Bool.eq_true_of_not_eq_false hw)] at h
    exact Bool.false_ne_true h
  simp [dcacheReq, h, hw]

/-- Where the queue is empty, what drains is the write that is being accepted. -/
theorem push_of_drainSel (h : drainSel P s i = true) (he : s.buffer.empty = true) :
    storeBufPushReq P s i = true ∧ drainEntry s i = pushEntry i := by
  simp only [drainSel, drainReq, he, Bool.and_eq_true] at h
  exact ⟨by simpa using h.1, if_pos he⟩

/-- A RAM write that drains is aligned. -/
theorem drainEntry_aligned (h : QueueInv P s) (hi : AlignedAccess i) (hd : drainSel P s i = true)
    (hram : isRam (drainEntry s i).addr = true) :
    AlignedStore (drainEntry s i).addr (drainEntry s i).be := by
  cases he : s.buffer.empty
  · have hentry : drainEntry s i = s.buffer.slot 0 := by simp [drainEntry, he]
    have hmem : s.buffer.slot 0 ∈ s.buffer.entries := by
      rw [StoreBuffer.entries_of_not_empty he]
      exact List.mem_cons_self
    rw [hentry] at hram ⊢
    exact h.aligned _ hmem hram
  · obtain ⟨hpush, hentry⟩ := push_of_drainSel hd he
    obtain ⟨hreq, hwe, -⟩ := not_full_of_push hpush
    rw [hentry] at hram ⊢
    have hal := hi hreq hram
    rw [if_pos hwe] at hal
    exact hal

/-- So is what the walker reads. -/
theorem dcacheReq_aligned_of_walkSel (hwa : WalkAligned i) (hw : walkSel P s i = true) :
    (dcacheReq P s i).Aligned := by
  have hreq : i.walkReq = true := by
    simp only [walkSel, Bool.and_eq_true] at hw
    exact hw.1.1
  simp [DcacheReq.Aligned, dcacheReq, hw, drainSel_of_walkSel hw, AlignedLoad, hwa hreq]

/-- A RAM request at the cache is aligned. -/
theorem dcacheReq_aligned_of_ram (h : QueueInv P s) (hi : AlignedAccess i) (hwa : WalkAligned i)
    (hreq : (dcacheReq P s i).req = true) (hram : isRam (dcacheReq P s i).addr = true) :
    (dcacheReq P s i).Aligned := by
  cases hw : walkSel P s i
  · unfold DcacheReq.Aligned
    cases hd : drainSel P s i
    · have hgo : cpuLoadGo P s i = true := by
        simpa [dcacheReq, hw, hd] using hreq
      have haddr : (dcacheReq P s i).addr = i.physAddr := by simp [dcacheReq, hw, hd]
      simp only [cpuLoadGo, Bool.and_eq_true, Bool.not_eq_true'] at hgo
      have hal := hi hgo.1.1.1 (haddr ▸ hram)
      rw [hgo.1.1.2] at hal
      simpa [dcacheReq, hw, hd] using hal
    · obtain ⟨-, hwe, haddr, hbe, -⟩ := dcacheReq_of_drainSel hd
      rw [if_pos hwe, haddr, hbe]
      exact drainEntry_aligned h hi hd (haddr ▸ hram)
  · exact dcacheReq_aligned_of_walkSel hwa hw

/-- **A served write is the end of a drain**, and no write is served to a drain of a device. -/
theorem drainDone_of_served (hs : busServed P s i = true) (hwe : (dcacheReq P s i).we = true) :
    drainSel P s i = true ∧ drainDone P s i = true := by
  have hd : drainSel P s i = true := hwe
  obtain ⟨hg, hv⟩ := gnt_of_served hs
  refine ⟨hd, ?_⟩
  rw [drainDone, hv, drainOwns, hd, hg]
  simp

/-- A drain that ends without a served write is of a device write. -/
theorem not_ram_of_drainDone (h : QueueInv P s) (hd : drainDone P s i = true)
    (hs : (busServed P s i && (dcacheReq P s i).we) = false) :
    isRam (drainEntry s i).addr = false := by
  rw [drainDone, Bool.and_eq_true] at hd
  obtain ⟨hv, hown⟩ := hd
  rw [drainOwns, Bool.or_eq_true, Bool.and_eq_true] at hown
  rcases hown with ho | ⟨hsel, hg⟩
  · obtain ⟨-, hne, hdev⟩ := h.drain ho
    rwa [drainEntry, hne, if_neg Bool.false_ne_true]
  · obtain ⟨-, hwe, haddr, -⟩ := dcacheReq_of_drainSel hsel
    by_contra hram
    have hram := Bool.eq_true_of_not_eq_false hram
    rw [← haddr] at hram
    rw [gnt_of_ram hram] at hg
    rw [hg, hwe] at hs
    exact Bool.false_ne_true hs.symm

/-- Only an entry for RAM changes RAM. -/
theorem applyWrites_ramWrites_cons (m : ℕ → BitVec 8) (e : StoreEntry) (es : List StoreEntry) :
    applyWrites m (ramWrites (e :: es)) =
      applyWrites (if isRam e.addr then store m e.addr.toNat e.be e.data else m)
        (ramWrites es) := by
  rw [ramWrites, List.filter_cons]
  split <;> rfl

/-- **One cycle**: an accepted write to RAM is the newest write of the RAM; nothing else changes
it. -/
theorem ramMemory_next (h : QueueInv P s) (hi : AlignedAccess i) (hwa : WalkAligned i) :
    ramMemory P (next P s i) =
      if storeBufPushReq P s i && isRam i.physAddr then
        store (ramMemory P s) i.physAddr.toNat i.byteEnable i.writeData
      else ramMemory P s := by
  have hview := CacheSystem.view_next h.system (choice P s i)
    (fun hreq hram => dcacheReq_aligned_of_ram h hi hwa hreq hram)
  rw [serves_system h.toBusInv, ← system_next h.adapter h.system] at hview
  -- What the drain of the cycle, if it ends, has done to the view.
  have hdrained : bytes (CacheSystem.view P.cache (system (next P s i))) =
      if drainDone P s i && isRam (drainEntry s i).addr then
        store (bytes (CacheSystem.view P.cache (system s))) (drainEntry s i).addr.toNat
          (drainEntry s i).be (drainEntry s i).data
      else bytes (CacheSystem.view P.cache (system s)) := by
    rw [hview]
    cases hs : busServed P s i && (dcacheReq P s i).we
    · cases hd : drainDone P s i
      · rfl
      · rw [not_ram_of_drainDone h hd hs]
        rfl
    · rw [Bool.and_eq_true] at hs
      obtain ⟨hsel, hd⟩ := drainDone_of_served hs.1 hs.2
      obtain ⟨-, -, haddr, hbe, hdata⟩ := dcacheReq_of_drainSel hsel
      have hram := (Dcache.req_of_served hs.1).2
      rw [haddr] at hram
      rw [hd, hram, haddr, hbe, hdata]
      rfl
  have hpushed : ∀ m : ℕ → BitVec 8, applyWrites m (ramWrites [pushEntry i]) =
      if isRam i.physAddr then store m i.physAddr.toNat i.byteEnable i.writeData else m :=
    fun m => applyWrites_ramWrites_cons m (pushEntry i) []
  rw [ramMemory, ramMemory, hdrained, entries_next h.toBusInv]
  cases hdone : drainDone P s i
  · -- nothing leaves; an accepted write enters the queue
    have hpop : storeBufPop P s i = false := by rw [storeBufPop, hdone, Bool.false_and]
    have hpush : storeBufPush P s i = storeBufPushReq P s i := by simp [storeBufPush, hdone]
    rw [hpop, hpush]
    cases storeBufPushReq P s i
    · simp
    · simp only [if_true, if_false, Bool.false_and, Bool.false_eq_true, ramWrites,
        List.filter_append, applyWrites_append, Bool.true_and]
      exact hpushed _
  · cases he : s.buffer.empty
    · -- the oldest entry drains, and an accepted write enters behind the others
      have hpop : storeBufPop P s i = true := by rw [storeBufPop, hdone, he]; rfl
      have hpush : storeBufPush P s i = storeBufPushReq P s i := by simp [storeBufPush, he]
      have hcons := StoreBuffer.entries_of_not_empty he
      have hentry : drainEntry s i = s.buffer.slot 0 := by simp [drainEntry, he]
      have hold : ∀ m : ℕ → BitVec 8, applyWrites m (ramWrites s.buffer.entries) =
          applyWrites (if isRam (s.buffer.slot 0).addr then store m (s.buffer.slot 0).addr.toNat
            (s.buffer.slot 0).be (s.buffer.slot 0).data else m)
            (ramWrites s.buffer.entries.tail) := by
        intro m
        rw [hcons]
        exact applyWrites_ramWrites_cons m _ _
      rw [hpop, hpush, hentry, hold]
      cases storeBufPushReq P s i
      · simp
      · simp only [if_true, Bool.true_and, ramWrites, List.filter_append, applyWrites_append]
        exact hpushed _
    · -- an empty queue: the accepted write goes straight to the cache
      have hsel : drainSel P s i = true := by
        rw [drainDone, drainOwns, Bool.and_eq_true, Bool.or_eq_true, Bool.and_eq_true] at hdone
        rcases hdone.2 with ho | hsel
        · exact absurd (he.symm.trans (h.drain ho).2.1) (by decide)
        · exact hsel.1
      obtain ⟨hreq, hentry⟩ := push_of_drainSel hsel he
      have hpop : storeBufPop P s i = false := by simp [storeBufPop, he]
      have hpush : storeBufPush P s i = false := by simp [storeBufPush, hdone, he]
      have hnil := StoreBuffer.empty_iff.mp he
      rw [hpop, hpush, hentry, hreq, hnil]
      simp only [Bool.true_and, if_false, Bool.false_eq_true, List.append_nil]
      rfl

/-- A bypass that is granted and not answered is in flight after the edge, and one in flight that is
not answered stays so. -/
theorem bypass_next (hv : dcacheRvalid P s i = false)
    (h : s.cache.eng.state = .bypass ∨
      (dcacheGnt P s i = true ∧ busServed P s i = false)) :
    (next P s i).cache.eng.state = .bypass := by
  have hv' := hv
  rw [dcacheRvalid, Dcache.rvalid, Bool.or_eq_false_iff, Bool.and_eq_false_iff] at hv'
  change (Dcache.nextEng P.cache s.cache (dcacheReq P s i) (memRsp P s i)).state = .bypass
  rcases h with hst | ⟨hg, hs⟩
  · have hr : (memRsp P s i).rvalid = false := by
      refine hv'.2.resolve_right fun hc => ?_
      simp [hst] at hc
    unfold Dcache.nextEng
    simp [hst, hr]
  · have hs' : Dcache.served P.cache s.cache (dcacheReq P s i) (handshake P s i) = false := hs
    rw [dcacheGnt, Dcache.gnt, hs', Bool.false_or, Bool.and_eq_true] at hg
    have hidle : s.cache.eng.state = .idle := by
      have hgo := hg.1
      simp only [Dcache.bypassGo, Bool.and_eq_true, beq_iff_eq] at hgo
      exact hgo.1.2
    have hr : (memRsp P s i).rvalid = false := by
      refine hv'.2.resolve_right fun hc => ?_
      rw [hg.1] at hc
      exact absurd hc (by simp)
    have hm : (memRsp P s i).gnt = true := hg.2
    unfold Dcache.nextEng
    simp [hidle, hg.1, hm, hr]

/-- **Step.** -/
theorem QueueInv.next (h : QueueInv P s) (hi : AlignedAccess i) : QueueInv P (next P s i) where
  toBusInv := h.toBusInv.next i
  aligned e he hram := by
    rcases mem_entries_next h.toBusInv he with he | ⟨rfl, hp⟩
    · exact h.aligned e he hram
    · obtain ⟨hreq, hwe, -⟩ := not_full_of_push hp
      have hal := hi hreq hram
      rw [if_pos hwe] at hal
      exact hal
  drain ho := by
    have ho : (if dcacheRvalid P s i then false else if dcacheGnt P s i then drainSel P s i
      else s.drainOwner) = true := ho
    cases hv : dcacheRvalid P s i
    · rw [hv, if_neg Bool.false_ne_true] at ho
      have hdone : drainDone P s i = false := by rw [drainDone, hv, Bool.false_and]
      have hpop : storeBufPop P s i = false := by rw [storeBufPop, hdone, Bool.false_and]
      have hpush : storeBufPush P s i = storeBufPushReq P s i := by simp [storeBufPush, hdone]
      have hentries := entries_next (i := i) h.toBusInv
      rw [hpop, hpush, if_neg Bool.false_ne_true] at hentries
      -- The write that owns the port is still the oldest of the queue.
      have hkeep : ∀ e : StoreEntry, ∀ es, (DataBus.next P s i).buffer.entries = e :: es →
          (DataBus.next P s i).buffer.empty = false ∧ (DataBus.next P s i).buffer.slot 0 = e := by
        intro e es hes
        have hne : (DataBus.next P s i).buffer.empty = false := by
          by_contra hc
          rw [StoreBuffer.empty_iff.mp (Bool.eq_true_of_not_eq_false hc)] at hes
          exact absurd hes (List.cons_ne_nil e es).symm
        refine ⟨hne, ?_⟩
        rw [StoreBuffer.entries_of_not_empty hne] at hes
        exact (List.cons.inj hes).1
      have hserved : busServed P s i = false := by
        by_contra hs
        exact Bool.false_ne_true
          (hv.symm.trans (gnt_of_served (Bool.eq_true_of_not_eq_false hs)).2)
      cases hg : dcacheGnt P s i
      · rw [hg, if_neg Bool.false_ne_true] at ho
        obtain ⟨hst, hne, hdev⟩ := h.drain ho
        rw [StoreBuffer.entries_of_not_empty hne] at hentries
        obtain ⟨hne', hslot⟩ := hkeep _ _ hentries
        exact ⟨bypass_next hv (.inl hst), hne', hslot ▸ hdev⟩
      · rw [hg, if_pos rfl] at ho
        have hst := bypass_next hv (.inr ⟨hg, hserved⟩)
        have hdev : isRam (drainEntry s i).addr = false := by
          by_contra hram
          have hram := Bool.eq_true_of_not_eq_false hram
          rw [← (dcacheReq_of_drainSel ho).2.2.1] at hram
          rw [gnt_of_ram hram, hserved] at hg
          exact Bool.false_ne_true hg
        cases he : s.buffer.empty
        · have hentry : drainEntry s i = s.buffer.slot 0 := by simp [drainEntry, he]
          rw [StoreBuffer.entries_of_not_empty he] at hentries
          obtain ⟨hne', hslot⟩ := hkeep _ _ hentries
          exact ⟨hst, hne', hslot.symm ▸ hentry ▸ hdev⟩
        · obtain ⟨hreq, hentry⟩ := push_of_drainSel ho he
          rw [hreq, StoreBuffer.empty_iff.mp he] at hentries
          obtain ⟨hne', hslot⟩ := hkeep _ _ hentries
          exact ⟨hst, hne', hslot.symm ▸ hentry ▸ hdev⟩
    · rw [hv, if_pos rfl] at ho
      exact absurd ho Bool.false_ne_true

end DataBus

end Synapse32
