import Synapse32.Data.Arbitration

/-! # Where the accesses of the data side come from

The data cache is asked by the walker, by a load of the core, or by a write of the core that has
been accepted. What it fetches, and what it lets through to the memory and the devices, is what it
has been asked for. -/

namespace Synapse32

namespace Dcache

variable {P : DcacheParams} {d : Dcache} {r : DcacheReq} {m : MemRsp}

/-- Only a request allocates an MSHR. -/
theorem req_of_alloc (h : alloc P d r m = true) : r.req = true := by
  have hl : lookup P d r m = true := by
    simp only [alloc, storeAlloc, loadAlloc, Bool.or_eq_true, Bool.and_eq_true] at h
    rcases h with h | h
    · exact h.1.1.1.1
    · exact h.1.1.1.1
  simp only [lookup, Bool.and_eq_true] at hl
  exact hl.1.1.1.1

/-- **The lines the cache waits for** after the edge: those it waited for, and the line of the
request. -/
theorem waiting_next {L : ℕ} (h : L ∈ (next P d r m).lines.waiting) :
    L ∈ d.lines.waiting ∨ (r.req = true ∧ L = P.lineOf r.addr) := by
  have hline : ∀ e : Mshr, (mergeStore P r e).line = e.line := by
    intro e
    rw [mergeStore]
    split <;> rfl
  change L ∈ (nextMshr P d r m).map Mshr.line at h
  rw [nextMshr] at h
  split at h
  · rename_i ha
    rw [List.map_append, List.mem_append] at h
    rcases h with h | h
    · exact .inl h
    · rw [List.map_singleton, List.mem_singleton, hline] at h
      exact .inr ⟨req_of_alloc ha, h⟩
  · split at h
    · rw [map_line_modify _ hline] at h
      exact .inl h
    · split at h
      · rw [List.map_tail] at h
        exact .inl (List.mem_of_mem_tail h)
      · exact .inl h

end Dcache

namespace DataBus

variable {P : BusParams} {s : DataBus} {i : DataIn}

/-- The access of a request that the cache lets through. -/
def bypassStore (r : DcacheReq) : StoreReq := ⟨r.addr, r.we, r.be, r.wdata⟩

/-- What the cache presents besides its line transfers is the request of the cycle. -/
theorem memStore_of_bypass (hr : memReq P s i = true) (hm : Dcache.memLine s.cache = false) :
    (dcacheReq P s i).req = true ∧ memStore P s i = bypassStore (dcacheReq P s i) := by
  have hgo := bypassGo_of_memReq hr hm
  have hne : s.cache.eng.state ≠ .evictWrite ∧ s.cache.eng.state ≠ .fill := by
    simpa [Dcache.memLine] using hm
  simp only [Dcache.bypassGo, Bool.and_eq_true] at hgo
  refine ⟨hgo.1.1.1, ?_⟩
  simp [memStore, bypassStore, Dcache.memAddr, Dcache.memWe, Dcache.memBe, Dcache.memWdata, hm,
    hne.1, hne.2]

/-- An access that the adapter holds, no line transfer, was held or is the request of the cycle. -/
theorem held_next (h : BusInv P s) (hb : (next P s i).adapter.busy = true)
    (hm : Dcache.memLine (next P s i).cache = false) :
    (s.adapter.busy = true ∧ Dcache.memLine s.cache = false ∧
        (next P s i).adapter.held = s.adapter.held) ∨
      ((dcacheReq P s i).req = true ∧
        (next P s i).adapter.held = bypassStore (dcacheReq P s i)) := by
  have hml := fun q => memLine_next (i := i) h.adapter h.system (q := q)
  have hstep := adapterStep_next (i := i) h.adapter h.system
  generalize hp : (CacheSystem.next P.cache (system s) (dcacheReq P s i) (choice P s i)).port = p
    at hml hstep
  generalize (DataBus.next P s i).adapter = a at hstep hb ⊢
  cases hstep with
  | answered hv hb' => exact absurd (hb'.symm.trans hb) Bool.false_ne_true
  | sampled hv hb' => exact absurd hb Bool.false_ne_true
  | waited hv hb' => exact .inl ⟨hb', (hml _ (Or.inl rfl)).symm.trans hm, rfl⟩
  | sampledOnAccept hv hb' hr hl => exact absurd (hb'.symm.trans hb) Bool.false_ne_true
  | accepted hv hb' hr hl =>
    exact .inr (memStore_of_bypass hr ((hml _ (Or.inl rfl)).symm.trans hm))
  | idle hv hb' => exact absurd (hb'.symm.trans hb) Bool.false_ne_true

/-- **Who asks the cache**: the walker, a load of the core, a write of the core accepted in this
cycle, or the oldest buffered write. -/
theorem asks_cases (h : (dcacheReq P s i).req = true) :
    walkSel P s i = true ∨ cpuLoadGo P s i = true ∨
      (storeBufPushReq P s i = true ∧ drainEntry s i = pushEntry i) ∨
      drainEntry s i ∈ s.buffer.entries := by
  have h : (walkSel P s i || drainSel P s i || cpuLoadGo P s i) = true := h
  simp only [Bool.or_eq_true] at h
  rcases h with (hw | hd) | hgo
  · exact .inl hw
  · rw [drainSel, drainReq, Bool.and_eq_true, Bool.or_eq_true, Bool.not_eq_true'] at hd
    cases he : s.buffer.empty
    · refine .inr (.inr (.inr ?_))
      rw [drainEntry, he, if_neg Bool.false_ne_true, StoreBuffer.entries_of_not_empty he]
      exact List.mem_cons_self
    · rw [he] at hd
      exact .inr (.inr (.inl ⟨hd.1.resolve_left (by decide), by rw [drainEntry, if_pos he]⟩))
  · exact .inr (.inl hgo)

/-! ## Runs -/

variable {init : DataBus} {ins : ℕ → DataIn}

/-- **Run lemma.** The invariant of the bus holds before every cycle. -/
theorem busInv_run (h0 : BusInv P init) (n : ℕ) : BusInv P (run P init ins n) :=
  Clocked.run_invariant h0 (fun n h => h.next (ins n)) n

/-- **A buffered write has been accepted** in an earlier cycle. -/
theorem entry_origin (h0 : BusInv P init) (he : init.buffer.entries = []) {n : ℕ} {e : StoreEntry}
    (h : e ∈ (run P init ins n).buffer.entries) :
    ∃ k < n, storeBufPushReq P (run P init ins k) (ins k) = true ∧ e = pushEntry (ins k) := by
  induction n with
  | zero =>
    have h : e ∈ init.buffer.entries := h
    rw [he] at h
    exact absurd h List.not_mem_nil
  | succ n ih =>
    rcases mem_entries_next (busInv_run h0 n) h with hold | ⟨rfl, hpush⟩
    · obtain ⟨k, hk, hrest⟩ := ih hold
      exact ⟨k, by omega, hrest⟩
    · exact ⟨n, by omega, hpush, rfl⟩

/-- **A line that the cache waits for has been asked for** in an earlier cycle. -/
theorem waiting_origin (he : init.cache.lines.waiting = []) {n L : ℕ}
    (h : L ∈ (run P init ins n).cache.lines.waiting) :
    ∃ k < n, (dcacheReq P (run P init ins k) (ins k)).req = true ∧
      L = P.cache.lineOf (dcacheReq P (run P init ins k) (ins k)).addr := by
  induction n with
  | zero =>
    have h : L ∈ init.cache.lines.waiting := h
    rw [he] at h
    exact absurd h List.not_mem_nil
  | succ n ih =>
    rcases Dcache.waiting_next h with hold | hnew
    · obtain ⟨k, hk, hrest⟩ := ih hold
      exact ⟨k, by omega, hrest⟩
    · exact ⟨n, by omega, hnew⟩

/-- **What goes to the memory or a device** is a line transfer, or a request that the cache has been
asked for. -/
theorem store_origin (h0 : BusInv P init) (hb : init.adapter.busy = false) {n : ℕ}
    (h : dataStoreReq P (run P init ins n) (ins n) = true)
    (hm : Dcache.memLine (run P init ins n).cache = false) :
    ∃ k ≤ n, (dcacheReq P (run P init ins k) (ins k)).req = true ∧
      dataStore P (run P init ins n) (ins n) =
        bypassStore (dcacheReq P (run P init ins k) (ins k)) := by
  -- What the adapter holds for a bypass was asked for in an earlier cycle.
  have hheld : ∀ n, (run P init ins n).adapter.busy = true →
      Dcache.memLine (run P init ins n).cache = false →
      ∃ k < n, (dcacheReq P (run P init ins k) (ins k)).req = true ∧
        (run P init ins n).adapter.held =
          bypassStore (dcacheReq P (run P init ins k) (ins k)) := by
    intro n
    induction n with
    | zero => exact fun h => absurd (hb.symm.trans h) Bool.false_ne_true
    | succ n ih =>
      intro hbusy hline
      rcases held_next (busInv_run h0 n) hbusy hline with ⟨hb', hm', heq⟩ | ⟨hreq, heq⟩
      · obtain ⟨k, hk, hreq, hst⟩ := ih hb' hm'
        exact ⟨k, by omega, hreq, heq.trans hst⟩
      · exact ⟨n, by omega, hreq, heq⟩
  cases hbusy : (run P init ins n).adapter.busy
  · have hr : memReq P (run P init ins n) (ins n) = true := by
      rw [dataStoreReq, MemAdapter.storeReq] at h
      split at h
      · exact h
      · rename_i hl
        simp only [hbusy, MemAdapter.gnt, if_neg hl, Bool.false_or, Bool.and_eq_true] at h
        exact h.1.1
    obtain ⟨hreq, hst⟩ := memStore_of_bypass hr hm
    refine ⟨n, le_rfl, hreq, ?_⟩
    rw [← hst, dataStore, MemAdapter.store, hbusy, if_neg Bool.false_ne_true, ite_self]
  · have hl : P.memLatency ≠ 0 := fun hl =>
      Bool.false_ne_true (((busInv_run h0 n).adapter.comb hl).1.symm.trans hbusy)
    obtain ⟨k, hk, hreq, hst⟩ := hheld n hbusy hm
    refine ⟨k, by omega, hreq, ?_⟩
    rw [← hst, dataStore, MemAdapter.store, if_neg hl, if_pos hbusy]

end DataBus

end Synapse32
