import Synapse32.Data.Arbitration

/-! # Memory order of the data side

The buffered writes applied to the cache's view are the memory that the accepted writes have
left: loads that overtake the buffer, the walker and the writes that skip it all see that
memory. -/

namespace Synapse32

open ByteLanes

namespace DataBus

variable {P : BusParams} {s : DataBus} {i : DataIn}

/-! ## Streams of RAM accesses -/

/-- **While all core accesses are aligned RAM accesses**, so are the buffered writes, and only the
walker bypasses the cache. -/
structure RamInv (P : BusParams) (s : DataBus) : Prop extends BusInv P s where
  ram : ∀ e ∈ s.buffer.entries, isRam e.addr = true
  aligned : ∀ e ∈ s.buffer.entries, AlignedStore e.addr e.be
  drain : s.drainOwner = false
  bypass : s.cache.eng.state = .bypass → s.walkOwner = true

/-- The invariant of the queue is part of it. -/
theorem RamInv.queueInv (h : RamInv P s) : QueueInv P s where
  toBusInv := h.toBusInv
  aligned e he _ := h.aligned e he
  drain ho := absurd (h.drain.symm.trans ho) Bool.false_ne_true

/-- The core's access of the cycle, if there is one, is an aligned RAM access. -/
def RamAccess (i : DataIn) : Prop :=
  cpuDataBusReq i = true → isRam i.physAddr = true ∧
    if i.memWriteEn = true then AlignedStore i.physAddr i.byteEnable
    else AlignedLoad i.physAddr i.loadType

/-- The write being drained is a RAM write. -/
theorem drainEntry_ram (h : RamInv P s) (hi : RamAccess i) (hd : drainSel P s i = true) :
    isRam (drainEntry s i).addr = true := by
  cases he : s.buffer.empty
  · have hentry : drainEntry s i = s.buffer.slot 0 := by simp [drainEntry, he]
    have hmem : s.buffer.slot 0 ∈ s.buffer.entries := by
      rw [StoreBuffer.entries_of_not_empty he]
      exact List.mem_cons_self
    rw [hentry]
    exact h.ram _ hmem
  · obtain ⟨hpush, hentry⟩ := push_of_drainSel hd he
    obtain ⟨hreq, -⟩ := not_full_of_push hpush
    rw [hentry]
    exact (hi hreq).1

/-- A request of the core or the buffer goes to RAM; what reaches the cache is aligned. -/
theorem dcacheReq_ram (h : RamInv P s) (hi : RamAccess i) (hw : walkSel P s i = false)
    (hreq : (dcacheReq P s i).req = true) : isRam (dcacheReq P s i).addr = true := by
  change isRam (if walkSel P s i then i.walkAddr else if drainSel P s i then (drainEntry s i).addr
    else i.physAddr) = true
  rw [hw]
  cases hd : drainSel P s i
  · have hgo : cpuLoadGo P s i = true := by
      simpa [dcacheReq, hw, hd] using hreq
    simp only [cpuLoadGo, Bool.and_eq_true] at hgo
    simpa using (hi hgo.1.1.1).1
  · simpa using drainEntry_ram h hi hd

/-- Requests to the cache are aligned. -/
theorem dcacheReq_aligned (h : RamInv P s) (hi : RamAccess i) (hwa : WalkAligned i)
    (hreq : (dcacheReq P s i).req = true) : (dcacheReq P s i).Aligned := by
  cases hw : walkSel P s i
  · have hram := dcacheReq_ram h hi hw hreq
    exact dcacheReq_aligned_of_ram h.queueInv (fun hq _ => (hi hq).2) hwa hreq hram
  · exact dcacheReq_aligned_of_walkSel hwa hw

/-- A bypass of an aligned RAM stream is the walker's. -/
theorem walkSel_of_bypassGo (h : RamInv P s) (hi : RamAccess i)
    (hgo : Dcache.bypassGo s.cache (dcacheReq P s i) = true) : walkSel P s i = true := by
  simp only [Dcache.bypassGo, Bool.and_eq_true, Bool.not_eq_true', Dcache.cacheable] at hgo
  by_contra hw
  have hram := dcacheReq_ram h hi (by simpa using hw) hgo.1.1.1
  rw [hgo.1.1.2] at hram
  exact absurd hram (by simp)

/-- The invariant of an aligned RAM stream after the edge. -/
theorem RamInv.next (h : RamInv P s) (hi : RamAccess i) : RamInv P (next P s i) where
  toBusInv := h.toBusInv.next i
  ram e he := by
    rcases mem_entries_next h.toBusInv he with he | ⟨rfl, hp⟩
    · exact h.ram e he
    · exact (hi (not_full_of_push hp).1).1
  aligned e he := by
    rcases mem_entries_next h.toBusInv he with he | ⟨rfl, hp⟩
    · exact h.aligned e he
    · obtain ⟨hreq, hwe, -⟩ := not_full_of_push hp
      have hal := (hi hreq).2
      rw [if_pos hwe] at hal
      exact hal
  drain := by
    -- To RAM a grant is the answer, so a drain never waits for one.
    change (if dcacheRvalid P s i then false else if dcacheGnt P s i then drainSel P s i
      else s.drainOwner) = false
    split
    · rfl
    · rename_i hv
      split
      · rename_i hg
        by_contra hd
        have hd : drainSel P s i = true := by simpa using hd
        have hw : walkSel P s i = false := by
          by_contra hw
          rw [drainSel_of_walkSel (by simpa using hw)] at hd
          exact absurd hd (by simp)
        rw [gnt_of_ram (dcacheReq_ram h hi hw (by simp [dcacheReq, hd]))] at hg
        exact hv (gnt_of_served hg).2
      · exact h.drain
  bypass hs := by
    -- What the cache served is to RAM, hence no bypass.
    obtain ⟨hrv, hcase⟩ := Dcache.state_of_next_bypass hs
    have hv : dcacheRvalid P s i = false := by
      by_contra hv
      have hunserved : busServed P s i = false := by
        by_contra hserved
        have hserved : busServed P s i = true := by simpa using hserved
        obtain ⟨-, hram⟩ := Dcache.req_of_served hserved
        rcases hcase with hst | ⟨hgo, -⟩
        · have hg := gnt_of_bypass (P := P) (i := i) hst
          rw [(gnt_of_served hserved).1] at hg
          exact absurd hg (by simp)
        · simp [Dcache.bypassGo, Dcache.cacheable, hram] at hgo
      have hserved' : Dcache.served P.cache s.cache (dcacheReq P s i) (handshake P s i) = false :=
        hunserved
      have hrv' : (handshake P s i).rvalid = false := hrv
      simp [dcacheRvalid, Dcache.rvalid, hserved', hrv'] at hv
    change (if dcacheRvalid P s i then false else if dcacheGnt P s i then walkSel P s i
      else s.walkOwner) = true
    rw [hv]
    rcases hcase with hst | ⟨hgo, hg⟩
    · simpa [gnt_of_bypass hst] using h.bypass hst
    · have hg' : (handshake P s i).gnt = true := hg
      have hgnt : dcacheGnt P s i = true := by simp [dcacheGnt, Dcache.gnt, hgo, hg']
      simpa [hgnt] using walkSel_of_bypassGo h hi hgo

/-! ## The memory the data side stands for -/

/-- **The memory of the data side**: the buffered writes over the view of the cache. -/
def memory (P : BusParams) (s : DataBus) : ℕ → BitVec 8 :=
  applyWrites (bytes (CacheSystem.view P.cache (system s))) s.buffer.entries

/-- A stream of RAM accesses is one without devices. -/
theorem RamInv.ramMemory_eq (h : RamInv P s) : ramMemory P s = memory P s := by
  rw [ramMemory, ramWrites, List.filter_eq_self.mpr h.ram, memory]

/-- **One cycle**: an accepted write is the newest write of the memory; nothing else changes
it. -/
theorem memory_next (h : RamInv P s) (hi : RamAccess i) (hwa : WalkAligned i) :
    memory P (next P s i) =
      if storeBufPushReq P s i then
        store (memory P s) i.physAddr.toNat i.byteEnable i.writeData
      else memory P s := by
  have hstep := ramMemory_next h.queueInv (fun hreq _ => (hi hreq).2) hwa
  rw [(h.next hi).ramMemory_eq, h.ramMemory_eq] at hstep
  rw [hstep]
  cases hp : storeBufPushReq P s i
  · rfl
  · rw [(hi (not_full_of_push hp).1).1]
    rfl

/-- The cache answers a served request from its view. -/
theorem rdata_of_served (h : RamInv P s) (hi : RamAccess i) (hwa : WalkAligned i)
    (hs : busServed P s i = true) (hwe : (dcacheReq P s i).we = false) :
    cpuDataRdata P s i = loadValue (bytes (CacheSystem.view P.cache (system s)))
      (dcacheReq P s i).addr.toNat (dcacheReq P s i).loadType := by
  obtain ⟨hafter, hram⟩ := inv_ramAfter (r := dcacheReq P s i) (c := choice P s i)
    h.system.cache h.system.port
  have hreq := (Dcache.req_of_served hs).1
  have hrd := Dcache.rdata_of_served hafter (dcacheReq_aligned h hi hwa hreq) hwe hs
  rw [hram] at hrd
  exact hrd

/-- **A load that the core sees answered** is the request of the cycle, and reads the memory: no
buffered write is to its word. -/
theorem load_value (h : RamInv P s) (hi : RamAccess i) (hwa : WalkAligned i)
    (hwe : i.memWriteEn = false) (hv : cpuDataRvalid P s i = true) :
    cpuLoadGo P s i = true ∧
      cpuDataRdata P s i = loadValue (memory P s) i.physAddr.toNat i.loadType := by
  simp only [cpuDataRvalid, hwe, Bool.false_eq_true, if_false, Bool.and_eq_true,
    Bool.not_eq_true'] at hv
  obtain ⟨⟨hrv, hwo⟩, hdo⟩ := hv
  have hw : dcacheGnt P s i = true → walkSel P s i = false := fun hg => by
    by_contra hw
    simp [walkOwns, hg, show walkSel P s i = true by simpa using hw] at hwo
  -- The answer is not for a walk, so the cache has served it.
  have hserved : busServed P s i = true := by
    rcases rvalid_cases h.toBusInv hrv with hs | ⟨hgo, hg⟩ | hst
    · exact hs
    · have hsel := walkSel_of_bypassGo h hi hgo
      rw [hw hg] at hsel
      exact absurd hsel (by simp)
    · simp [walkOwns, h.bypass hst] at hwo
  have hg := (gnt_of_served hserved).1
  have hd : drainSel P s i = false := by
    by_contra hd
    simp [drainOwns, hg, show drainSel P s i = true by simpa using hd] at hdo
  have hgo : cpuLoadGo P s i = true := by
    have hreq := (Dcache.req_of_served hserved).1
    simpa [dcacheReq, hw hg, hd] using hreq
  refine ⟨hgo, ?_⟩
  have hfields : (dcacheReq P s i).addr = i.physAddr ∧ (dcacheReq P s i).loadType = i.loadType := by
    simp [dcacheReq, hw hg, hd]
  rw [rdata_of_served h hi hwa hserved hd, hfields.1, hfields.2]
  simp only [cpuLoadGo, Bool.and_eq_true, Bool.not_eq_true'] at hgo
  obtain ⟨-, hal⟩ := hi hgo.1.1.1
  rw [hwe] at hal
  have hload : AlignedLoad i.physAddr i.loadType := by simpa using hal
  -- The buffered writes are to other words: a match would have held the load back.
  refine hload.congr fun x hx => (applyWrites_of_ne_word h.aligned fun e he heq => ?_).symm
  have hmatch : s.buffer.hasMatch P.storeBufferDepth i.physAddr = true :=
    (StoreBuffer.hasMatch_iff h.count).mpr ⟨e, he, heq.trans hx⟩
  rw [hgo.1.2] at hmatch
  exact absurd hmatch (by simp)

/-- **A page-table read that is granted** is answered at once with the word of the memory: no
write is buffered. -/
theorem walk_value (h : RamInv P s) (hi : RamAccess i) (hwa : WalkAligned i)
    (hram : isRam i.walkAddr = true) (hg : walkGnt P s i = true) :
    walkRvalid P s i = true ∧
      cpuDataRdata P s i = loadWord (memory P s) i.walkAddr.toNat := by
  simp only [walkGnt, Bool.and_eq_true] at hg
  obtain ⟨hg, hw⟩ := hg
  have haddr : (dcacheReq P s i).addr = i.walkAddr ∧
      (dcacheReq P s i).loadType = 0b010#3 := by
    simp [dcacheReq, hw]
  have hserved : busServed P s i = true := by
    rw [← gnt_of_ram (by rw [haddr.1]; exact hram)]
    exact hg
  refine ⟨by simp [walkRvalid, walkOwns, hw, hg, (gnt_of_served hserved).2], ?_⟩
  have hempty : s.buffer.empty = true := by
    simp only [walkSel, drainReq, Bool.and_eq_true, Bool.not_eq_true', Bool.or_eq_false_iff] at hw
    simpa using hw.2.1
  rw [rdata_of_served h hi hwa hserved (drainSel_of_walkSel hw), haddr.1, haddr.2, memory,
    StoreBuffer.empty_iff.mp hempty]
  rfl

/-! ## Runs -/

/-- The invariant before every cycle. -/
theorem ramInv_run {init : DataBus} (h0 : RamInv P init) {ins : ℕ → DataIn}
    (hi : ∀ n, RamAccess (ins n)) (n : ℕ) : RamInv P (run P init ins n) :=
  Clocked.run_invariant h0 (fun n h => h.next (hi n)) n

/-- The registers after reset satisfy the invariant. -/
theorem ramInv_reset (data : ℕ → ℕ → Word) (tag : ℕ → ℕ → ℕ) (dataRd : ℕ → Word)
    (tagRd : ℕ → ℕ) (mem : UnifiedMem) :
    RamInv P (reset (Dcache.reset data tag dataRd tagRd) mem) where
  toBusInv := busInv_reset data tag dataRd tagRd mem
  ram := fun e he => absurd he (by simp [reset])
  aligned := fun e he => absurd he (by simp [reset])
  drain := rfl
  bypass := fun h => absurd h (by simp [reset, Dcache.reset])

/-- **The memory in program order**: the RAM with every write that the core has seen accepted
before cycle `n`, in that order. -/
def programMemory (P : BusParams) (init : DataBus) (ins : ℕ → DataIn) : ℕ → ℕ → BitVec 8
  | 0 => bytes init.mem.words
  | n + 1 =>
    if (ins n).memWriteEn && cpuDataRvalid P (run P init ins n) (ins n) then
      store (programMemory P init ins n) (ins n).physAddr.toNat (ins n).byteEnable
        (ins n).writeData
    else programMemory P init ins n

/-- The buffered writes over the cache's view are the memory in program order. -/
theorem memory_run (data : ℕ → ℕ → Word) (tag : ℕ → ℕ → ℕ) (dataRd : ℕ → Word)
    (tagRd : ℕ → ℕ) (mem : UnifiedMem) {ins : ℕ → DataIn} (hi : ∀ n, RamAccess (ins n))
    (hwa : ∀ n, WalkAligned (ins n)) (n : ℕ) :
    memory P (run P (reset (Dcache.reset data tag dataRd tagRd) mem) ins n) =
      programMemory P (reset (Dcache.reset data tag dataRd tagRd) mem) ins n := by
  induction n with
  | zero => exact congrArg bytes (Dcache.view_reset P.cache data tag dataRd tagRd mem.words)
  | succ n ih =>
    have hinv := ramInv_run (ramInv_reset (P := P) data tag dataRd tagRd mem) hi n
    have hstep := memory_next hinv (hi n) (hwa n)
    rw [programMemory, ← ih]
    refine hstep.trans ?_
    congr 1
    cases hwe : (ins n).memWriteEn
    · simp [storeBufPushReq, hwe]
    · simp [cpuDataRvalid, hwe]

/-- **Memory order of the data side.** In every cycle of every run whose core accesses are aligned
RAM accesses, with any walks, depth, MSHR count and latency:
an answered load reads the memory in program order; so does a granted page-table read, answered in
its own cycle; the buffered writes over the cache's view are that memory, and once the buffer is
empty and the cache clean it is the RAM. -/
theorem run_memory_order (data : ℕ → ℕ → Word) (tag : ℕ → ℕ → ℕ) (dataRd : ℕ → Word)
    (tagRd : ℕ → ℕ) (mem : UnifiedMem) (ins : ℕ → DataIn) (hi : ∀ n, RamAccess (ins n))
    (hwa : ∀ n, WalkAligned (ins n)) (n : ℕ) :
    let init := reset (Dcache.reset data tag dataRd tagRd) mem
    let s := run P init ins n
    let order := programMemory P init ins n
    ((ins n).memWriteEn = false → cpuDataRvalid P s (ins n) = true →
        cpuLoadGo P s (ins n) = true ∧
          cpuDataRdata P s (ins n) =
            loadValue order (ins n).physAddr.toNat (ins n).loadType) ∧
      (isRam (ins n).walkAddr = true → walkGnt P s (ins n) = true →
        walkRvalid P s (ins n) = true ∧
          cpuDataRdata P s (ins n) = loadWord order (ins n).walkAddr.toNat) ∧
      applyWrites (bytes (CacheSystem.view P.cache (system s))) s.buffer.entries = order ∧
      (s.buffer.empty = true → Dcache.clean P.cache s.cache = true →
        bytes s.mem.words = order) := by
  intro init s order
  have hinv : RamInv P s := ramInv_run (ramInv_reset data tag dataRd tagRd mem) hi n
  have hmem : memory P s = order := memory_run data tag dataRd tagRd mem hi hwa n
  refine ⟨fun hwe hv => ?_, fun hram hg => ?_, hmem, fun he hc => ?_⟩
  · rw [← hmem]
    exact load_value hinv (hi n) (hwa n) hwe hv
  · rw [← hmem]
    exact walk_value hinv (hi n) (hwa n) hram hg
  · rw [← hmem, memory, StoreBuffer.empty_iff.mp he]
    exact congrArg bytes (Dcache.view_of_clean hinv.system.cache hc).symm

/-- A memory two cycles away, a buffer of two writes, a small cache. -/
def smallBus : BusParams := .ofDepth 2 2 CacheSystem.smallParams (by decide)

/-- Two word stores and then loads of the second word, page-table reads of the first waiting
behind them. -/
def storeLoad (n : ℕ) : DataIn :=
  ⟨decide (2 ≤ n), decide (n < 2), false, false, false, true,
    if n = 0 then 0x80000100#32 else 0x80000104#32, 0b1111#4, 0xCAFE0000#32 + BitVec.ofNat 32 n,
    0b010#3, 0x80000104#32, false, true, 0x80000100#32, 0#32⟩

/-- A store, and a load of its word behind it. -/
theorem run_memory_order_storeLoad :
    let init := reset (Dcache.reset (fun _ _ => 0#32) (fun _ _ => 0) (fun _ => 0#32) fun _ => 0)
      fun _ => 0#32
    let s := run smallBus init storeLoad 20
    let order := programMemory smallBus init storeLoad 20
    ((storeLoad 20).memWriteEn = false → cpuDataRvalid smallBus s (storeLoad 20) = true →
        cpuLoadGo smallBus s (storeLoad 20) = true ∧
          cpuDataRdata smallBus s (storeLoad 20) =
            loadValue order (storeLoad 20).physAddr.toNat (storeLoad 20).loadType) ∧
      (isRam (storeLoad 20).walkAddr = true → walkGnt smallBus s (storeLoad 20) = true →
        walkRvalid smallBus s (storeLoad 20) = true ∧
          cpuDataRdata smallBus s (storeLoad 20) =
            loadWord order (storeLoad 20).walkAddr.toNat) ∧
      applyWrites (bytes (CacheSystem.view smallBus.cache (system s))) s.buffer.entries = order ∧
      (s.buffer.empty = true → Dcache.clean smallBus.cache s.cache = true →
        bytes s.mem.words = order) :=
  run_memory_order _ _ _ _ _ storeLoad
    (fun n _ => ⟨by by_cases h : n = 0 <;> simp [storeLoad, h] <;> decide,
      by by_cases h : n < 2 <;> by_cases h0 : n = 0 <;>
        simp [storeLoad, h, h0, AlignedStore, AlignedLoad]⟩)
    (fun _ _ => by simp [storeLoad]) 20

end DataBus

end Synapse32
