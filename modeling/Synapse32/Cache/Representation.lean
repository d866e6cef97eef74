import Synapse32.Lib.Clocked
import Synapse32.Cache.Step

/-! # The representation of the data cache

What the arrays, the MSHRs and the read registers satisfy in every reachable state, whatever the
core asks for and whatever the memory answers. -/

namespace Synapse32

variable {P : DcacheParams}

/-- The words of the lines are no part of the invariant of arrays and MSHRs. -/
theorem LinesInv.of_data {l : Lines} (h : LinesInv P l) (data : ℕ → ℕ → Word) :
    LinesInv P { l with data := data } :=
  ⟨h.unique, h.dirty_valid, h.nodup, h.uncached, h.count, h.ram_holds, h.ram_waiting⟩

/-- An engine that serves is neither idle nor scanning, and no bypass is out. -/
theorem Engine.Serving.state_ne {e : Engine} (h : e.Serving) :
    e.state ≠ .idle ∧ e.state ≠ .scan ∧ e.state ≠ .bypass := by
  rcases h.2 with hs | hs | (hs | hs) | hs <;> simp [hs]

namespace Dcache

/-- **The representation invariant** of `dcache.v`: a line is in at most one way or one MSHR, a
dirty way is valid, the MSHRs do not overflow, and a fresh read has the rows as they are. -/
structure Represents (P : DcacheParams) (d : Dcache) : Prop where
  unique : ∀ s < P.sets, ∀ i < P.numWays, ∀ j < P.numWays,
    d.lines.valid i s = true → d.lines.valid j s = true → d.lines.tag s i = d.lines.tag s j → i = j
  distinct : d.lines.mshr.Pairwise fun a b => a.line ≠ b.line
  uncached : ∀ e ∈ d.lines.mshr, ∀ i < P.numWays, ¬ (d.lines.valid i (P.setOf e.line) = true ∧
    d.lines.tag (P.setOf e.line) i = P.tagOf e.line)
  dirty_valid : ∀ s < P.sets, ∀ i < P.numWays,
    d.lines.dirty i s = true → d.lines.valid i s = true
  count : d.lines.mshr.length ≤ P.numMshr
  fresh : d.rd.fresh = true → ∀ i < P.numWays,
    d.rd.data i = d.lines.data d.rd.index i ∧ d.rd.tag i = d.lines.tag (d.rd.index / P.words) i ∧
      d.rd.valid i = d.lines.valid i (d.rd.index / P.words)

/-- The invariant that the edge preserves. Besides the representation it says which MSHR the
engine serves, since the end of a fill puts the line of the oldest one into a way. -/
structure RepInv (P : DcacheParams) (d : Dcache) : Prop where
  lines : LinesInv P d.lines
  head : d.eng.Serving → ∃ L, d.lines.waiting.head? = some L ∧ d.eng.set = P.setOf L
  fill_mode : d.eng.state = .fill → d.eng.clean = false
  fresh : RowsFresh P d

/-- The invariant says all that `Represents` does. -/
theorem RepInv.represents {d : Dcache} (h : RepInv P d) : Represents P d where
  unique := by
    intro s hs i hi j hj hvi hvj htag
    -- both ways hold the line that this tag has in this set
    have hset : P.setOf (P.line (d.lines.tag s i) s) = s := P.setOf_line _ hs
    have hline : P.tagOf (P.line (d.lines.tag s i) s) = d.lines.tag s i := P.tagOf_line _ hs
    apply h.lines.unique (L := P.line (d.lines.tag s i) s)
    · exact ⟨hi, by rw [hset, hvi], by rw [hset, hline]⟩
    · exact ⟨hj, by rw [hset, hvj], by rw [hset, hline, htag]⟩
  distinct := List.pairwise_map.mp h.lines.nodup
  uncached := by
    intro e he i hi hv
    exact h.lines.uncached (List.mem_map_of_mem he) i ⟨hi, hv.1, hv.2⟩
  dirty_valid := fun s hs i hi hd => h.lines.dirty_valid hi hs hd
  count := h.lines.count
  fresh := h.fresh

variable {d : Dcache} {r : DcacheReq} {m : MemRsp}

/-! ## The arrays and the MSHRs -/

/-- Serving a request keeps the arrays and the MSHRs apart. -/
theorem linesInv_served' (hl : LinesInv P d.lines) (hr : RowsFresh P d) :
    LinesInv P (served' P d r m) := by
  unfold served'
  split_ifs with h1 h2 h3 h4
  · simp only [storeHit, Bool.and_eq_true] at h1
    exact hl.hit (holds_hitWay hr h1.1.1 h1.2)
  · exact hl.mergeAt
  · simp only [storeAlloc, Bool.and_eq_true, Bool.not_eq_true'] at h3
    obtain ⟨hnew, hnot, hlen, hram⟩ := alloc_ok hl hr h3.1.1.1.1 h3.1.1.2 h3.1.2 h3.2
    exact hl.alloc hnew hnot hlen hram
  · simp only [loadAlloc, Bool.and_eq_true, Bool.not_eq_true'] at h4
    obtain ⟨hnew, hnot, hlen, hram⟩ := alloc_ok hl hr h4.1.1.1.1 h4.1.1.2 h4.1.2 h4.2
    exact hl.alloc hnew hnot hlen hram
  · exact hl

/-- A fill is for the line of the oldest MSHR. -/
theorem RepInv.head_of_fill (h : RepInv P d) (hs : d.eng.state = .fill) :
    d.lines.mshr.head? = some (Dcache.head d) ∧ d.eng.set = P.setOf (Dcache.head d).line := by
  obtain ⟨L, hL, hset⟩ := h.head ⟨h.fill_mode hs, Or.inr (Or.inr (Or.inr hs))⟩
  unfold Lines.waiting at hL
  unfold Dcache.head
  cases hml : d.lines.mshr with
  | nil => simp [hml] at hL
  | cons a t =>
    rw [hml] at hL
    obtain rfl : a.line = L := by simpa using hL
    exact ⟨rfl, hset⟩

/-- While a fill word lands nothing is served; the last one puts the line into its way. -/
theorem lines_of_fillWrite (hf : fillWrite d m = true) :
    (next P d r m).lines =
      if fillLast P d m then
        { d.lines.fillDone P d.eng (head d) 0#32 (anyIndex P.words fun w => (head d).be w != 0#4)
          with data := nextData P d r m }
      else { d.lines with data := nextData P d r m } := by
  have hs := state_of_fillWrite hf
  obtain ⟨h1, h2, h3, h4⟩ := served_of_no_lookup (lookup_of_block (P := P) (r := r) (m := m)
    (Or.inr hf))
  show (⟨nextData P d r m, nextTag P d m, nextValid P d m, nextDirty P d r m,
    nextMshr P d r m⟩ : Lines) = _
  cases hl : fillLast P d m <;>
    simp [Lines.fillDone, nextTag, nextValid, nextDirty, nextMshr, alloc, hl, hs, h1, h2, h3, h4]

/-- **The lines keep their invariant** whatever the core and memory do. -/
theorem RepInv.lines_next (h : RepInv P d) : LinesInv P (next P d r m).lines := by
  by_cases hv : d.eng.state = .victim
  · rw [next_lines_of_victim hv]
    exact h.lines.takeOut _ _
  by_cases hf : fillWrite d m = true
  · obtain ⟨hhead, hset⟩ := h.head_of_fill (state_of_fillWrite hf)
    rw [lines_of_fillWrite hf]
    split
    · exact (h.lines.fillDone hset hhead).of_data _
    · exact h.lines.of_data _
  · rw [next_lines_of_quiet hv (by simpa using hf)]
    exact linesInv_served' h.lines h.fresh

/-! ## The engine -/

/-- Until a fill ends, the oldest MSHR stays the oldest. -/
theorem waiting_head_next (hl : fillLast P d m = false) {L : ℕ}
    (h : d.lines.waiting.head? = some L) : (next P d r m).lines.waiting.head? = some L := by
  show ((nextMshr P d r m).map Mshr.line).head? = some L
  unfold Lines.waiting at h
  unfold nextMshr
  simp only [hl, Bool.false_eq_true, if_false]
  split_ifs with h1 h2
  · rw [List.map_append, List.head?_append, h]
    rfl
  · rw [map_line_modify (mergeStore P r) (fun e => by unfold mergeStore; split <;> rfl)]
    exact h
  · exact h

/-- When the engine turns to an MSHR it is the oldest, and it keeps to it. -/
theorem serving_next (hs : (nextEng P d r m).Serving) :
    fillLast P d m = false ∧
      ((d.eng.Serving ∧ (nextEng P d r m).set = d.eng.set) ∨
        (mshrEmpty d = false ∧ (nextEng P d r m).set = P.setOf (head d).line)) := by
  obtain ⟨hidle, hscan, hbypass⟩ := hs.state_ne
  have hfill : d.eng.state ≠ .fill → fillLast P d m = false := fun h => by
    simp [fillLast, fillWrite, h]
  by_cases hi : d.eng.state = .idle
  · -- only an MSHR sets an idle engine to work
    refine ⟨hfill (by simp [hi]), Or.inr ?_⟩
    rw [nextEng_of_idle hi] at hidle hscan hbypass ⊢
    split_ifs at hidle hscan hbypass ⊢ with hgo hgnt hm hc
    · exact absurd rfl hbypass
    · exact absurd hi hidle
    · exact ⟨by simpa using hm, rfl⟩
    · exact absurd rfl hscan
    · exact absurd hi hidle
  by_cases hsc : d.eng.state = .scan
  · -- a scan finds what is to be cleaned
    have hclean := hs.1
    rw [nextEng_of_scan hsc] at hidle hscan hclean
    split_ifs at hidle hscan hclean with hstop hdirty
    · exact absurd rfl hidle
    · exact absurd hsc hscan
  -- anything else goes on with its own set
  obtain ⟨hset, hclean⟩ := target_next (P := P) (r := r) (m := m) hi hsc
  have hcl : d.eng.clean = false := hclean.symm.trans hs.1
  cases hst : d.eng.state with
  | idle => exact absurd hst hi
  | scan => exact absurd hst hsc
  | tag => exact ⟨hfill (by simp [hst]), Or.inl ⟨⟨hcl, Or.inl hst⟩, hset⟩⟩
  | victim => exact ⟨hfill (by simp [hst]), Or.inl ⟨⟨hcl, Or.inr (Or.inl hst)⟩, hset⟩⟩
  | evictRead =>
    exact ⟨hfill (by simp [hst]),
      Or.inl ⟨⟨hcl, Or.inr (Or.inr (Or.inl (Or.inl hst)))⟩, hset⟩⟩
  | evictWrite =>
    exact ⟨hfill (by simp [hst]),
      Or.inl ⟨⟨hcl, Or.inr (Or.inr (Or.inl (Or.inr hst)))⟩, hset⟩⟩
  | fill =>
    refine ⟨?_, Or.inl ⟨⟨hcl, Or.inr (Or.inr (Or.inr hst))⟩, hset⟩⟩
    by_contra hl
    have hl : fillLast P d m = true := by simpa using hl
    exact absurd (by simp [nextEng, hst, hl]) hidle
  | bypass =>
    cases hrv : m.rvalid
    · exact absurd (by simp [nextEng, hst, hrv]) hbypass
    · exact absurd (by simp [nextEng, hst, hrv]) hidle

/-- A fill is for an MSHR. -/
theorem fill_mode_next (h : d.eng.state = .fill → d.eng.clean = false)
    (hs : (nextEng P d r m).state = .fill) : (nextEng P d r m).clean = false := by
  unfold nextEng at hs ⊢
  cases hst : d.eng.state with
  | tag => simp [hst] at hs
  | _ =>
    simp only [hst] at hs ⊢
    split_ifs at hs ⊢ <;> simp_all

/-- **One edge keeps the invariant**, whatever the core asks for and the memory answers. -/
theorem RepInv.next (h : RepInv P d) (r : DcacheReq) (m : MemRsp) : RepInv P (next P d r m) where
  lines := h.lines_next
  head := by
    intro hs
    obtain ⟨hlast, ⟨hold, hset⟩ | ⟨hne, hset⟩⟩ := serving_next hs
    · obtain ⟨L, hL, hL'⟩ := h.head hold
      exact ⟨L, waiting_head_next hlast hL, hset.trans hL'⟩
    · exact ⟨(Dcache.head d).line, waiting_head_next hlast (waiting_head hne), hset⟩
  fill_mode := fill_mode_next h.fill_mode
  fresh := rowsFresh_next

/-- After reset nothing is in the cache. -/
theorem repInv_reset (P : DcacheParams) (data : ℕ → ℕ → Word) (tag : ℕ → ℕ → ℕ)
    (dataRd : ℕ → Word) (tagRd : ℕ → ℕ) : RepInv P (reset data tag dataRd tagRd) :=
  have h := inv_reset P data tag dataRd tagRd fun _ => 0#32
  ⟨h.lines, h.eng.head, h.eng.fill_mode, h.rd.fresh⟩

/-! ## Every reachable state -/

/-- **The cache represents its lines.** In every state that the cache reaches from reset, whatever
the block RAMs held, the core asks for and the memory answers, the representation invariant
holds. -/
theorem represents_run (P : DcacheParams) (data : ℕ → ℕ → Word) (tag : ℕ → ℕ → ℕ)
    (dataRd : ℕ → Word) (tagRd : ℕ → ℕ) (ins : ℕ → DcacheReq × MemRsp) (n : ℕ) :
    Represents P (Clocked.run (fun d i => Dcache.next P d i.1 i.2)
      (reset data tag dataRd tagRd) ins n) := by
  apply RepInv.represents
  apply Clocked.run_invariant
  · exact repInv_reset P data tag dataRd tagRd
  · intro n h
    exact h.next _ _

end Dcache

end Synapse32
