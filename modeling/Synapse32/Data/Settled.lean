import Synapse32.Data.Arbitration
import Synapse32.Cache.Steady

/-! # The RAM behind the data side

What the accepted writes leave in the RAM, with devices among the accesses: a page-table read sees
all of them, and once the queue is empty and the cache is clean the RAM holds them, word by word
until a younger write reaches the word. -/

namespace Synapse32

open ByteLanes

namespace DataBus

variable {P : BusParams} {s : DataBus} {i : DataIn}

/-- **A page-table read is granted** only behind all buffered writes; from RAM it is answered at
once, with the word that the accepted writes have left. -/
theorem walk_reads (h : QueueInv P s) (hi : AlignedAccess i) (hwa : WalkAligned i)
    (hg : walkGnt P s i = true) :
    s.buffer.empty = true ∧ (isRam i.walkAddr = true → walkRvalid P s i = true ∧
      cpuDataRdata P s i = loadWord (ramMemory P s) i.walkAddr.toNat) := by
  rw [walkGnt, Bool.and_eq_true] at hg
  obtain ⟨hg, hw⟩ := hg
  have hempty : s.buffer.empty = true := by
    simp only [walkSel, drainReq, Bool.and_eq_true, Bool.not_eq_true', Bool.or_eq_false_iff] at hw
    simpa using hw.2.1
  refine ⟨hempty, fun hram => ?_⟩
  have haddr : (dcacheReq P s i).addr = i.walkAddr ∧
      (dcacheReq P s i).loadType = 0b010#3 := by
    simp [dcacheReq, hw]
  have hram' : isRam (dcacheReq P s i).addr = true := haddr.1.symm ▸ hram
  have hserved : busServed P s i = true := gnt_of_ram hram' ▸ hg
  have hreq := (Dcache.req_of_served hserved).1
  refine ⟨by rw [walkRvalid, (gnt_of_served hserved).2, walkOwns, hw, hg]; simp, ?_⟩
  obtain ⟨hafter, hview⟩ := inv_ramAfter (r := dcacheReq P s i) (c := choice P s i)
    h.system.cache h.system.port
  have hrd := Dcache.rdata_of_served hafter (dcacheReq_aligned_of_ram h hi hwa hreq hram')
    (drainSel_of_walkSel hw) hserved
  rw [hview] at hrd
  have hrd : cpuDataRdata P s i = loadValue (bytes (CacheSystem.view P.cache (system s)))
      (dcacheReq P s i).addr.toNat (dcacheReq P s i).loadType := hrd
  rw [hrd, haddr.1, haddr.2, ramMemory, StoreBuffer.empty_iff.mp hempty]
  rfl

/-- Once the queue is empty and the cache is clean, the RAM holds every accepted write. -/
theorem ramMemory_of_clean (h : QueueInv P s) (he : s.buffer.empty = true)
    (hc : Dcache.clean P.cache s.cache = true) : ramMemory P s = bytes s.mem.words := by
  rw [ramMemory, StoreBuffer.empty_iff.mp he]
  exact congrArg bytes (Dcache.view_of_clean h.system.cache hc)

/-! ## Words that no write reaches -/

/-- **A settled word**: it is steady, and no buffered write goes to it. -/
structure Settled (P : BusParams) (s : DataBus) (w : ℕ) (v : Word) : Prop where
  steady : Steady P.cache s.cache s.mem.words (w / P.cache.words) (w % P.cache.words) v
  queue : ∀ e ∈ s.buffer.entries, isRam e.addr = true → DcacheParams.wordAddr e.addr ≠ w

/-- The core's access of the cycle writes word `w` of the RAM, and is accepted. -/
def writesWord (P : BusParams) (s : DataBus) (i : DataIn) (w : ℕ) : Prop :=
  storeBufPushReq P s i = true ∧ isRam i.physAddr = true ∧ DcacheParams.wordAddr i.physAddr = w

/-- A settled word is in the memory itself. -/
theorem Settled.word {w : ℕ} {v : Word} (h : Settled P s w v) : s.mem.words w = v := by
  have hw := h.steady.backed
  rwa [DcacheParams.lineWord, Nat.mul_comm, Nat.div_add_mod] at hw

/-- Behind an empty queue and a clean cache every word is settled. -/
theorem settled_of_clean (h : QueueInv P s) (he : s.buffer.empty = true)
    (hc : Dcache.clean P.cache s.cache = true) (w : ℕ) : Settled P s w (s.mem.words w) where
  steady := by
    have hs := steady_of_clean h.system.cache hc (w / P.cache.words)
      (Nat.mod_lt w P.cache.words_pos)
    have hw : P.cache.lineWord (w / P.cache.words) (w % P.cache.words) = w := by
      rw [DcacheParams.lineWord, Nat.mul_comm, Nat.div_add_mod]
    rw [hw] at hs
    exact hs
  queue e hmem := by
    rw [StoreBuffer.empty_iff.mp he] at hmem
    exact absurd hmem List.not_mem_nil

/-- **Step.** A settled word stays so, unless a write to it is accepted. -/
theorem Settled.next {w : ℕ} {v : Word} (hs : Settled P s w v) (h : QueueInv P s)
    (hno : ¬ writesWord P s i w) : Settled P (next P s i) w v where
  steady := by
    have ho : w % P.cache.words < P.cache.words := Nat.mod_lt w P.cache.words_pos
    have hw : P.cache.lineWord (w / P.cache.words) (w % P.cache.words) = w := by
      rw [DcacheParams.lineWord, Nat.mul_comm, Nat.div_add_mod]
    rw [cache_next h.adapter h.system, words_next h.adapter h.system]
    have hafter : Steady P.cache s.cache
        (CacheSystem.ramAfter P.cache (system s) (dcacheReq P s i) (choice P s i))
        (w / P.cache.words) (w % P.cache.words) v := by
      rcases ramAfter_cases (r := dcacheReq P s i) (c := choice P s i) h.system.cache
        h.system.port with ⟨hst, hwb⟩ | heq
      · exact hs.steady.writeBack h.system.cache ho hst hwb
      · rw [heq]
        exact hs.steady
    refine hafter.next (inv_ramAfter h.system.cache h.system.port).1
      (memOk_response h.system.cache h.system.port) ho ?_
    -- A store that is served is a write that drains.
    intro hstore
    have hwe : (dcacheReq P s i).we = true := by
      by_contra hwe
      rw [Dcache.storeServed_of_load (Bool.eq_false_of_not_eq_true hwe)] at hstore
      exact Bool.false_ne_true hstore
    have hserved : busServed P s i = true := by
      rw [← Dcache.served_store hwe] at hstore
      rw [busServed, ← response_system h.adapter h.system]
      exact hstore
    have hsel : drainSel P s i = true := hwe
    have haddr := (dcacheReq_of_drainSel hsel).2.2.1
    have hram := (Dcache.req_of_served hserved).2
    rw [hw]
    rw [haddr] at hram ⊢
    cases he : s.buffer.empty
    · have hentry : drainEntry s i = s.buffer.slot 0 := by simp [drainEntry, he]
      rw [hentry] at hram ⊢
      refine hs.queue _ ?_ hram
      rw [StoreBuffer.entries_of_not_empty he]
      exact List.mem_cons_self
    · obtain ⟨hpush, hentry⟩ := push_of_drainSel hsel he
      rw [hentry] at hram ⊢
      exact fun heq => hno ⟨hpush, hram, heq⟩
  queue e he hram := by
    rcases mem_entries_next h.toBusInv he with he | ⟨rfl, hp⟩
    · exact hs.queue e he hram
    · exact fun heq => hno ⟨hp, hram, heq⟩

/-! ## Runs -/

/-- **The RAM in program order**: the RAM with every write to it that has been accepted before
cycle `n`, in that order. -/
def ramOrder (P : BusParams) (init : DataBus) (ins : ℕ → DataIn) : ℕ → ℕ → BitVec 8
  | 0 => bytes init.mem.words
  | n + 1 =>
    if storeBufPushReq P (run P init ins n) (ins n) && isRam (ins n).physAddr then
      store (ramOrder P init ins n) (ins n).physAddr.toNat (ins n).byteEnable (ins n).writeData
    else ramOrder P init ins n

variable {init : DataBus} {ins : ℕ → DataIn}

/-- The registers after reset satisfy the invariant. -/
theorem queueInv_reset (data : ℕ → ℕ → Word) (tag : ℕ → ℕ → ℕ) (dataRd : ℕ → Word)
    (tagRd : ℕ → ℕ) (mem : UnifiedMem) :
    QueueInv P (reset (Dcache.reset data tag dataRd tagRd) mem) where
  toBusInv := busInv_reset data tag dataRd tagRd mem
  aligned _ he := absurd he List.not_mem_nil
  drain h := absurd h Bool.false_ne_true

/-- After reset nothing is dirty. -/
theorem clean_reset (data : ℕ → ℕ → Word) (tag : ℕ → ℕ → ℕ) (dataRd : ℕ → Word)
    (tagRd : ℕ → ℕ) : Dcache.clean P.cache (Dcache.reset data tag dataRd tagRd) = true := by
  have hdirty : Dcache.dirtyAny P.cache (Dcache.reset data tag dataRd tagRd) = false := by
    simp [Dcache.dirtyAny, anyIndex, Dcache.reset]
  change (!Dcache.dirtyAny P.cache (Dcache.reset data tag dataRd tagRd) && true && true) = true
  rw [hdirty]
  rfl

/-- After reset no write is pending. -/
theorem ramMemory_reset (data : ℕ → ℕ → Word) (tag : ℕ → ℕ → ℕ) (dataRd : ℕ → Word)
    (tagRd : ℕ → ℕ) (mem : UnifiedMem) :
    ramMemory P (reset (Dcache.reset data tag dataRd tagRd) mem) = bytes mem.words :=
  ramMemory_of_clean (queueInv_reset data tag dataRd tagRd mem) rfl
    (clean_reset data tag dataRd tagRd)

/-- **Run lemma.** The invariant of the queue holds before every cycle. -/
theorem queueInv_run (h0 : QueueInv P init) (hi : ∀ n, AlignedAccess (ins n)) (n : ℕ) :
    QueueInv P (run P init ins n) :=
  Clocked.run_invariant h0 (fun n h => h.next (hi n)) n

/-- **The data side stands for the RAM in program order.** -/
theorem ramMemory_run (h0 : QueueInv P init) (hmem : ramMemory P init = bytes init.mem.words)
    (hi : ∀ n, AlignedAccess (ins n)) (hwa : ∀ n, WalkAligned (ins n)) (n : ℕ) :
    ramMemory P (run P init ins n) = ramOrder P init ins n := by
  induction n with
  | zero => exact hmem
  | succ n ih =>
    rw [ramOrder, ← ih]
    exact ramMemory_next (queueInv_run h0 hi n) (hi n) (hwa n)

/-- **A settled word keeps its value** in the RAM until a write to it is accepted. -/
theorem settled_run (h0 : QueueInv P init) (hi : ∀ n, AlignedAccess (ins n)) {w t n : ℕ} {v : Word}
    (ht : Settled P (run P init ins t) w v) (htn : t ≤ n)
    (hno : ∀ k, t ≤ k → k < n → ¬ writesWord P (run P init ins k) (ins k) w) :
    Settled P (run P init ins n) w v := by
  induction n, htn using Nat.le_induction with
  | base => exact ht
  | succ n hle ih =>
    exact (ih fun k hk hkn => hno k hk (by omega)).next (queueInv_run h0 hi n)
      (hno n hle (by omega))

end DataBus

end Synapse32
