import Synapse32.Cache.Engine

/-! # One clock edge of the data cache

The edge as a served request followed by an engine step, so that the lemmas on each give the
invariant and the view after the edge. -/

namespace Synapse32

open ByteLanes

variable {P : DcacheParams}

/-! ## Loops over an index -/

/-- `anyIndex` finds an index below its bound. -/
theorem anyIndex_iff {n : ℕ} {p : ℕ → Bool} : anyIndex n p = true ↔ ∃ i < n, p i = true := by
  simp [anyIndex, List.any_eq_true]

/-- The last index is the newest one that satisfies the predicate. -/
theorem lastIndex_succ (n : ℕ) (p : ℕ → Bool) :
    lastIndex (n + 1) p = if p n then n else lastIndex n p := by
  unfold lastIndex
  rw [List.range_succ, List.foldl_append]
  rfl

/-- A loop that overwrites its result ends on an index that satisfies the test, if one does. -/
theorem lastIndex_spec {n : ℕ} {p : ℕ → Bool} (h : ∃ i < n, p i = true) :
    lastIndex n p < n ∧ p (lastIndex n p) = true := by
  induction n with
  | zero =>
    obtain ⟨i, hi, -⟩ := h
    exact absurd hi (Nat.not_lt_zero i)
  | succ n ih =>
    rw [lastIndex_succ]
    by_cases hn : p n = true
    · rw [if_pos hn]
      exact ⟨Nat.lt_succ_self n, hn⟩
    · rw [if_neg hn]
      obtain ⟨i, hi, hp⟩ := h
      have hne : i ≠ n := fun hin => hn (hin ▸ hp)
      obtain ⟨h1, h2⟩ := ih ⟨i, by omega, hp⟩
      exact ⟨by omega, h2⟩

/-- The tree points at one of the ways. -/
theorem plruVictim_lt (levels : ℕ) (tree : ℕ → Bool) : plruVictim levels tree < 2 ^ levels := by
  unfold plruVictim
  induction levels with
  | zero => simp
  | succ n ih =>
    rw [List.range_succ, List.foldl_append, pow_succ]
    simp only [List.foldl_cons, List.foldl_nil]
    have hb := Bool.toNat_le (tree ((List.range n).foldl
      (fun (p : ℕ × ℕ) _ => (2 * p.1 + (tree p.2).toNat, 2 * p.2 + 1 + (tree p.2).toNat))
      (0, 0)).2)
    omega

namespace Dcache

/-! ## The invariant of the whole cache -/

/-- What the read registers hold: a fresh read has the rows as they are, the engine's reads have
the rows it asked for. -/
structure ReadInv (P : DcacheParams) (d : Dcache) : Prop where
  fresh : d.rd.fresh = true → ∀ i < P.numWays,
    d.rd.data i = d.lines.data d.rd.index i ∧ d.rd.tag i = d.lines.tag (d.rd.index / P.words) i ∧
      d.rd.valid i = d.lines.valid i (d.rd.index / P.words)
  victim : d.eng.state = .victim → ∀ i < P.numWays, d.rd.tag i = d.lines.tag d.eng.set i
  evict : d.eng.state = .evictRead → d.lines.dirty d.eng.way d.eng.set = false → 0 < d.eng.word →
    d.rd.data d.eng.way = d.lines.data (P.row d.eng.set (d.eng.word - 1)) d.eng.way

/-- **The cache invariant.** -/
structure Inv (P : DcacheParams) (d : Dcache) (ram : Ram) : Prop where
  lines : LinesInv P d.lines
  eng : EngineInv P d.lines d.eng ram
  rd : ReadInv P d

/-- The invariant holds after reset, whatever the block RAMs hold. -/
theorem inv_reset (P : DcacheParams) (data : ℕ → ℕ → Word) (tag : ℕ → ℕ → ℕ) (dataRd : ℕ → Word)
    (tagRd : ℕ → ℕ) (ram : Ram) : Inv P (reset data tag dataRd tagRd) ram where
  lines :=
    { unique := fun h => absurd h.2.1 (by simp [reset])
      dirty_valid := fun _ _ h => absurd h (by simp [reset])
      nodup := List.nodup_nil
      uncached := fun h => absurd h (by simp [Lines.waiting, reset])
      count := Nat.zero_le _
      ram_holds := fun h => absurd h.2.1 (by simp [reset])
      ram_waiting := fun h => absurd h (by simp [Lines.waiting, reset]) }
  eng :=
    { set_lt := P.sets_pos
      scan_lt := P.sets_pos
      way_lt := fun h => absurd h (by simp [Engine.Evicting, reset])
      head := fun h => absurd h (by simp [Engine.Serving, Engine.Evicting, reset])
      fill_mode := fun h => absurd h (by simp [reset])
      evict_tag := fun h => absurd h (by simp [Engine.Evicting, reset])
      evict_valid := fun h => absurd h (by simp [Engine.Evicting, reset])
      evict_gone := fun h => absurd h (by simp [Engine.Evicting, reset])
      evict_ram := fun h => absurd h (by simp [Engine.Evicting, reset])
      fill_invalid := fun h => absurd h (by simp [reset])
      clean_data := fun h => absurd h.2.1 (by simp [reset])
      read_word := fun h => absurd h (by simp [reset])
      read_buf := fun h => absurd h (by simp [reset])
      write_word := fun h => absurd h (by simp [reset])
      write_buf := fun h => absurd h (by simp [reset])
      write_ram := fun h => absurd h (by simp [reset])
      fill_word := fun h => absurd h (by simp [reset])
      fill_data := fun h => absurd h (by simp [reset]) }
  rd :=
    { fresh := fun h => absurd h (by simp [reset])
      victim := fun h => absurd h (by simp [reset])
      evict := fun h => absurd h (by simp [reset]) }

/-- After reset the view is the RAM. -/
theorem view_reset (P : DcacheParams) (data : ℕ → ℕ → Word) (tag : ℕ → ℕ → ℕ) (dataRd : ℕ → Word)
    (tagRd : ℕ → ℕ) (ram : Ram) :
    view P (reset data tag dataRd tagRd).lines (reset data tag dataRd tagRd).eng ram = ram := by
  funext n
  have hnone : ∀ i, ¬ (reset data tag dataRd tagRd).lines.Holds P (n / P.words) i := fun i h =>
    absurd h.2.1 (by simp [reset])
  unfold view
  rw [viewWord_of_not_holds hnone]
  change ram (P.lineWord (n / P.words) (n % P.words)) = ram n
  unfold DcacheParams.lineWord
  rw [Nat.mul_comm, Nat.div_add_mod]

variable {d : Dcache} {r : DcacheReq} {m : MemRsp} {ram : Ram}

/-! ## What a lookup finds -/

/-- A fresh read has the rows as they are. -/
def RowsFresh (P : DcacheParams) (d : Dcache) : Prop :=
  d.rd.fresh = true → ∀ i < P.numWays,
    d.rd.data i = d.lines.data d.rd.index i ∧ d.rd.tag i = d.lines.tag (d.rd.index / P.words) i ∧
      d.rd.valid i = d.lines.valid i (d.rd.index / P.words)

/-- A way hits exactly if it holds the requested line. -/
theorem wayHit_iff (hr : RowsFresh P d) (hl : lookup P d r m = true) {i : ℕ} (hi : i < P.numWays) :
    wayHit P d r i = true ↔ d.lines.Holds P (P.lineOf r.addr) i := by
  simp only [lookup, Bool.and_eq_true, beq_iff_eq] at hl
  obtain ⟨-, htag, hval⟩ := hr hl.1.2 i hi
  have hset : d.rd.index / P.words = P.setOf (P.lineOf r.addr) := by
    rw [hl.2, P.index_eq, P.row_div (P.wordOf_lt _)]
  rw [wayHit, Bool.and_eq_true, beq_iff_eq, htag, hval, hset]
  exact ⟨fun h => ⟨hi, h.1, h.2⟩, fun h => ⟨h.2.1, h.2.2⟩⟩

/-- A lookup that hits finds its line in the way that hits. -/
theorem holds_hitWay (hr : RowsFresh P d) (hl : lookup P d r m = true)
    (hh : hitAny P d r = true) : d.lines.Holds P (P.lineOf r.addr) (hitWay P d r) := by
  obtain ⟨hlt, hp⟩ := lastIndex_spec (anyIndex_iff.mp hh)
  exact (wayHit_iff hr hl hlt).mp hp

/-- A lookup that misses finds its line in no way. -/
theorem not_holds_of_miss (hr : RowsFresh P d) (hl : lookup P d r m = true)
    (hh : hitAny P d r = false) (i : ℕ) : ¬ d.lines.Holds P (P.lineOf r.addr) i := by
  intro hold
  have hany : hitAny P d r = true :=
    anyIndex_iff.mpr ⟨i, hold.1, (wayHit_iff hr hl hold.1).mpr hold⟩
  rw [hh] at hany
  exact absurd hany (by simp)

/-- The word of a hit is the word of the view. -/
theorem hitWord_eq (h : Inv P d ram) (hl : lookup P d r m = true) (hh : hitAny P d r = true) :
    hitWord P d r = view P d.lines d.eng ram (DcacheParams.wordAddr r.addr) := by
  have hold := holds_hitWay h.rd.fresh hl hh
  rw [← P.lineWord_lineOf, view_lineWord (P.wordOf_lt _),
    viewWord_of_holds (fun k hk => h.lines.unique hk hold) hold, hitWord, if_pos hh]
  simp only [lookup, Bool.and_eq_true, beq_iff_eq] at hl
  rw [(h.rd.fresh hl.1.2 _ hold.1).1, hl.2, P.index_eq]

/-- The MSHR that matches waits for the line of the access. -/
theorem match_spec (hm : matchAny P d r = true) :
    ∃ e, d.lines.mshr[matchIndex P d r]? = some e ∧ e.line = P.lineOf r.addr := by
  obtain ⟨-, hp⟩ := lastIndex_spec (anyIndex_iff.mp hm)
  change mshrMatch P d r (matchIndex P d r) = true at hp
  unfold mshrMatch at hp
  split at hp
  · rename_i e he
    exact ⟨e, he, by simpa using hp⟩
  · exact absurd hp (by simp)

/-- Without a match no MSHR waits for the line of the access. -/
theorem not_waiting_of_no_match (hl : LinesInv P d.lines) (hm : matchAny P d r = false) :
    P.lineOf r.addr ∉ d.lines.waiting := by
  intro hmem
  obtain ⟨e, he, hline⟩ := List.mem_map.mp hmem
  obtain ⟨j, hj, hget⟩ := List.mem_iff_getElem.mp he
  have hcount := hl.count
  have hmatch : matchAny P d r = true := by
    refine anyIndex_iff.mpr ⟨j, by omega, ?_⟩
    unfold mshrMatch
    rw [List.getElem?_eq_getElem hj, hget]
    simp [hline]
  rw [hm] at hmatch
  exact absurd hmatch (by simp)

/-! ## The served request -/

/-- A store is served. -/
def storeServed (P : DcacheParams) (d : Dcache) (r : DcacheReq) (m : MemRsp) : Bool :=
  storeHit P d r m || storeMerge P d r m || storeAlloc P d r m

/-- The arrays with the served request applied, the engine's own changes apart. -/
def served' (P : DcacheParams) (d : Dcache) (r : DcacheReq) (m : MemRsp) : Lines :=
  if storeHit P d r m then
    d.lines.hit P (P.lineOf r.addr) (hitWay P d r) (P.wordOf r.addr)
      (merge (laneBe r) (laneData r)
        (d.lines.data (P.row (P.setOf (P.lineOf r.addr)) (P.wordOf r.addr)) (hitWay P d r)))
  else if storeMerge P d r m then
    d.lines.mergeAt (matchIndex P d r) (P.wordOf r.addr) (laneBe r) (laneData r)
  else if storeAlloc P d r m then
    d.lines.alloc ((Mshr.empty (P.lineOf r.addr)).store (P.wordOf r.addr) (laneBe r) (laneData r))
  else if loadAlloc P d r m then d.lines.alloc (Mshr.empty (P.lineOf r.addr))
  else d.lines

/-- **What serving does**: the invariants of arrays and engine stay, the view changes in the bytes
of a served store, the oldest MSHR keeps its place, and a way that is still clean has not been
written. -/
structure Serves (P : DcacheParams) (d : Dcache) (r : DcacheReq) (ram : Ram) (stored : Bool)
    (l : Lines) : Prop where
  lines : LinesInv P l
  eng : EngineInv P l d.eng ram
  view : view P l d.eng ram =
    if stored then
      Function.update (view P d.lines d.eng ram) (DcacheParams.wordAddr r.addr)
        (merge (laneBe r) (laneData r) (Synapse32.view P d.lines d.eng ram
          (DcacheParams.wordAddr r.addr)))
    else Synapse32.view P d.lines d.eng ram
  head : ∀ {L}, d.lines.waiting.head? = some L → l.waiting.head? = some L
  clean : ∀ {i s}, l.dirty i s = false → d.lines.dirty i s = false ∧
    ∀ o < P.words, l.data (P.row s o) i = d.lines.data (P.row s o) i

/-- **A store hit serves the store.** -/
theorem serves_storeHit (h : Inv P d ram) (hs : storeHit P d r m = true) :
    Serves P d r ram true (d.lines.hit P (P.lineOf r.addr) (hitWay P d r) (P.wordOf r.addr)
      (merge (laneBe r) (laneData r)
        (d.lines.data (P.row (P.setOf (P.lineOf r.addr)) (P.wordOf r.addr)) (hitWay P d r)))) := by
  simp only [storeHit, Bool.and_eq_true] at hs
  have hold := holds_hitWay h.rd.fresh hs.1.1 hs.2
  refine ⟨h.lines.hit hold, h.eng.hit hold (P.wordOf_lt _), ?_, fun hL => hL, ?_⟩
  · rw [view_hit h.lines h.eng hold (P.wordOf_lt _), if_pos rfl, ← P.lineWord_lineOf,
      view_lineWord (P.wordOf_lt _), viewWord_of_holds (fun k hk => h.lines.unique hk hold) hold]
  · intro i s hd
    obtain ⟨hne, hd⟩ := dirty_of_hit hd
    exact ⟨hd, fun o ho => data_of_hit (P.wordOf_lt _) ho hne⟩

/-- **A merge into a waiting line serves the store.** -/
theorem serves_storeMerge (h : Inv P d ram) (hs : storeMerge P d r m = true) :
    Serves P d r ram true
      (d.lines.mergeAt (matchIndex P d r) (P.wordOf r.addr) (laneBe r) (laneData r)) := by
  simp only [storeMerge, Bool.and_eq_true, Bool.not_eq_true'] at hs
  obtain ⟨e, he, hline⟩ := match_spec hs.1.2
  have hfill : ¬ (d.eng.state = .fill ∧ matchIndex P d r = 0) := by
    rintro ⟨h1, h2⟩
    have hf := hs.2
    simp [matchFilling, hs.1.2, h1, h2] at hf
  refine ⟨h.lines.mergeAt, h.eng.mergeAt hfill, ?_, ?_, fun hd => ⟨hd, fun _ _ => rfl⟩⟩
  · rw [view_mergeAt h.lines he (P.wordOf_lt _), if_pos rfl, hline, P.lineWord_lineOf]
  · intro L hL
    rw [waiting_mergeAt]
    exact hL

/-- The line of a request that misses and matches no MSHR can be allocated. -/
theorem alloc_ok (h : LinesInv P d.lines) (hr : RowsFresh P d) (hl : lookup P d r m = true)
    (hh : hitAny P d r = false) (hm : matchAny P d r = false) (hf : mshrFull P d = false) :
    P.lineOf r.addr ∉ d.lines.waiting ∧ (∀ i, ¬ d.lines.Holds P (P.lineOf r.addr) i) ∧
      d.lines.mshr.length < P.numMshr ∧ P.RamLine (P.lineOf r.addr) := by
  have hcount := h.count
  have hne : d.lines.mshr.length ≠ P.numMshr := by simpa [mshrFull] using hf
  refine ⟨not_waiting_of_no_match h hm, not_holds_of_miss hr hl hh, by omega, r.addr, ?_,
    rfl⟩
  simp only [lookup, Bool.and_eq_true, cacheable] at hl
  exact hl.1.1.1.2

/-- **A new MSHR with the store in it serves the store.** -/
theorem serves_storeAlloc (h : Inv P d ram) (hs : storeAlloc P d r m = true) :
    Serves P d r ram true (d.lines.alloc
      ((Mshr.empty (P.lineOf r.addr)).store (P.wordOf r.addr) (laneBe r) (laneData r))) := by
  simp only [storeAlloc, Bool.and_eq_true, Bool.not_eq_true'] at hs
  obtain ⟨hnew, hnot, hlen, hram⟩ :=
    alloc_ok h.lines h.rd.fresh hs.1.1.1.1 hs.1.1.2 hs.1.2 hs.2
  refine ⟨h.lines.alloc hnew hnot hlen hram, h.eng.alloc, ?_, ?_, fun hd => ⟨hd, fun _ _ => rfl⟩⟩
  · rw [view_alloc_store h.lines hnew hnot (P.wordOf_lt _), if_pos rfl, P.lineWord_lineOf]
  · intro L hL
    rw [waiting_alloc, List.head?_append, hL]
    rfl

/-- A new MSHR for a load changes no word. -/
theorem serves_loadAlloc (h : Inv P d ram) (hs : loadAlloc P d r m = true) :
    Serves P d r ram false (d.lines.alloc (Mshr.empty (P.lineOf r.addr))) := by
  simp only [loadAlloc, Bool.and_eq_true, Bool.not_eq_true'] at hs
  obtain ⟨hnew, hnot, hlen, hram⟩ :=
    alloc_ok h.lines h.rd.fresh hs.1.1.1.1 hs.1.1.2 hs.1.2 hs.2
  refine ⟨h.lines.alloc hnew hnot hlen hram, h.eng.alloc, ?_, ?_, fun hd => ⟨hd, fun _ _ => rfl⟩⟩
  · rw [view_alloc_empty h.lines hnew hnot]
    rfl
  · intro L hL
    rw [waiting_alloc, List.head?_append, hL]
    rfl

/-- An access that is not served changes none. -/
theorem serves_none (h : Inv P d ram) : Serves P d r ram false d.lines :=
  ⟨h.lines, h.eng, rfl, fun hL => hL, fun hd => ⟨hd, fun _ _ => rfl⟩⟩

/-- **Every request is served by one of these, or not at all.** -/
theorem serves_served' (h : Inv P d ram) :
    Serves P d r ram (storeServed P d r m) (served' P d r m) := by
  unfold served' storeServed
  cases h1 : storeHit P d r m
  · cases h2 : storeMerge P d r m
    · cases h3 : storeAlloc P d r m
      · cases h4 : loadAlloc P d r m
        · exact serves_none h
        · exact serves_loadAlloc h h4
      · exact serves_storeAlloc h h3
    · exact serves_storeMerge h h2
  · exact serves_storeHit h h1

/-! ## The arrays after the edge -/

/-- While a victim is chosen or a fill word lands, nothing is looked up. -/
theorem lookup_of_block (h : d.eng.state = .victim ∨ fillWrite d m = true) :
    lookup P d r m = false := by
  have hb : lookupBlock d m = true := by
    rcases h with h | h <;> simp [lookupBlock, h]
  simp [lookup, hb]

/-- Without a lookup nothing is served. -/
theorem served_of_no_lookup (h : lookup P d r m = false) :
    storeHit P d r m = false ∧ storeMerge P d r m = false ∧ storeAlloc P d r m = false ∧
      loadAlloc P d r m = false := by
  simp [storeHit, storeMerge, storeAlloc, loadAlloc, h]

/-- Without a lookup nothing is served. -/
theorem served'_of_no_lookup (h : lookup P d r m = false) : served' P d r m = d.lines := by
  obtain ⟨h1, h2, h3, h4⟩ := served_of_no_lookup h
  simp [served', h1, h2, h3, h4]

/-- A store hit leaves the MSHRs alone. -/
theorem no_mshr_of_storeHit (h : storeHit P d r m = true) :
    storeMerge P d r m = false ∧ alloc P d r m = false := by
  simp only [storeHit, Bool.and_eq_true] at h
  simp [storeMerge, alloc, storeAlloc, loadAlloc, h.2]

/-- A merged store allocates nothing. -/
theorem no_alloc_of_storeMerge (h : storeMerge P d r m = true) : alloc P d r m = false := by
  simp only [storeMerge, Bool.and_eq_true] at h
  simp [alloc, storeAlloc, loadAlloc, h.1.2]

/-- **Between the engine's changes of the arrays**, the edge applies the served request. -/
theorem next_lines_of_quiet (hv : d.eng.state ≠ .victim) (hf : fillWrite d m = false) :
    (next P d r m).lines = served' P d r m := by
  have hlast : fillLast P d m = false := by simp [fillLast, hf]
  have hvb : (d.eng.state == EngState.victim) = false := by simpa using hv
  have htag : nextTag P d m = d.lines.tag := by simp [nextTag, hlast]
  have hvalid : nextValid P d m = d.lines.valid := by simp [nextValid, hvb, hlast]
  have hdirty : nextDirty P d r m = if storeHit P d r m then
      update2 d.lines.dirty (hitWay P d r) (P.setOf (P.lineOf r.addr)) true else d.lines.dirty := by
    simp [nextDirty, hvb, hlast]
  have hdata : nextData P d r m = if storeHit P d r m then
      update2 d.lines.data (P.row (P.setOf (P.lineOf r.addr)) (P.wordOf r.addr)) (hitWay P d r)
        (merge (laneBe r) (laneData r)
          (d.lines.data (P.row (P.setOf (P.lineOf r.addr)) (P.wordOf r.addr)) (hitWay P d r)))
      else d.lines.data := by
    simp [nextData, dataWrite, writeIndex, writeWay, writeBe, writeData, hf, P.index_eq]
  change (⟨nextData P d r m, nextTag P d m, nextValid P d m, nextDirty P d r m,
    nextMshr P d r m⟩ : Lines) = _
  rw [htag, hvalid, hdirty, hdata]
  unfold served' nextMshr
  -- The request is served by the way it hits, by an MSHR of its line, or by a new MSHR.
  cases h1 : storeHit P d r m
  · cases h2 : storeMerge P d r m
    · cases h3 : storeAlloc P d r m
      · cases h4 : loadAlloc P d r m
        · simp [alloc, h3, h4, hlast]
        · have hwe : r.we = false := by
            simp only [loadAlloc, Bool.and_eq_true, Bool.not_eq_true'] at h4
            exact h4.1.1.1.2
          simp [alloc, h4, mergeStore, hwe, Lines.alloc, Mshr.empty]
      · have hwe : r.we = true := by
          simp only [storeAlloc, Bool.and_eq_true] at h3
          exact h3.1.1.1.2
        simp [alloc, h3, mergeStore, hwe, Lines.alloc, Mshr.empty, Mshr.store]
    · have hwe : r.we = true := by
        simp only [storeMerge, Bool.and_eq_true] at h2
        exact h2.1.1.1.2
      have hstore : mergeStore P r =
          fun e => e.store (P.wordOf r.addr) (laneBe r) (laneData r) := by
        funext e
        simp [mergeStore, hwe, Mshr.store]
      simp [no_alloc_of_storeMerge h2, Lines.mergeAt, hstore]
  · obtain ⟨h2, h3⟩ := no_mshr_of_storeHit h1
    simp [h2, h3, hlast, Lines.hit]

/-- Where a victim is chosen, the edge takes it out. -/
theorem next_lines_of_victim (hv : d.eng.state = .victim) :
    (next P d r m).lines = d.lines.takeOut (victim P d) d.eng.set d.eng.clean := by
  have hf : fillWrite d m = false := by simp [fillWrite, hv]
  have hlast : fillLast P d m = false := by simp [fillLast, hf]
  obtain ⟨h1, h2, h3, h4⟩ := served_of_no_lookup (lookup_of_block (P := P) (r := r) (m := m)
    (Or.inl hv))
  change (⟨nextData P d r m, nextTag P d m, nextValid P d m, nextDirty P d r m,
    nextMshr P d r m⟩ : Lines) = _
  unfold Lines.takeOut
  cases hc : d.eng.clean <;>
    simp [nextData, nextTag, nextValid, nextDirty, nextMshr, dataWrite, alloc, hf, hlast, h1, h2,
      h3, h4, hv, hc]

/-- A fill is written in FILL only. -/
theorem state_of_fillWrite (hf : fillWrite d m = true) : d.eng.state = .fill := by
  simp only [fillWrite, Bool.and_eq_true, beq_iff_eq] at hf
  exact hf.1

/-- Where a fill word lands that is not the last, the edge writes it. -/
theorem next_lines_of_fillWrite (hf : fillWrite d m = true) (hl : fillLast P d m = false)
    (hw : d.eng.word < P.words) :
    (next P d r m).lines = d.lines.fillWord P d.eng
      (merge ((head d).be d.eng.word) ((head d).data d.eng.word) m.rdata) := by
  have hs := state_of_fillWrite hf
  have hidx : engWordIndex P d = d.eng.word := Nat.mod_eq_of_lt hw
  obtain ⟨h1, h2, h3, h4⟩ := served_of_no_lookup (lookup_of_block (P := P) (r := r) (m := m)
    (Or.inr hf))
  change (⟨nextData P d r m, nextTag P d m, nextValid P d m, nextDirty P d r m,
    nextMshr P d r m⟩ : Lines) = _
  simp [Lines.fillWord, nextData, nextTag, nextValid, nextDirty, nextMshr, dataWrite, alloc,
    writeIndex, writeWay, writeBe, writeData, hf, hl, h1, h2, h3, h4, hs, hidx]

/-- Where the last fill word lands, the way gets its line. -/
theorem next_lines_of_fillLast (hl : fillLast P d m = true) (hw : d.eng.word < P.words) :
    (next P d r m).lines = d.lines.fillDone P d.eng (head d)
      (merge ((head d).be d.eng.word) ((head d).data d.eng.word) m.rdata)
      (anyIndex P.words fun w => (head d).be w != 0#4) := by
  have hf : fillWrite d m = true := by
    simp only [fillLast, Bool.and_eq_true] at hl
    exact hl.1
  have hs := state_of_fillWrite hf
  have hidx : engWordIndex P d = d.eng.word := Nat.mod_eq_of_lt hw
  obtain ⟨h1, h2, h3, h4⟩ := served_of_no_lookup (lookup_of_block (P := P) (r := r) (m := m)
    (Or.inr hf))
  change (⟨nextData P d r m, nextTag P d m, nextValid P d m, nextDirty P d r m,
    nextMshr P d r m⟩ : Lines) = _
  simp [Lines.fillDone, nextData, nextTag, nextValid, nextDirty, nextMshr, dataWrite, alloc,
    writeIndex, writeWay, writeBe, writeData, hf, hl, h2, h3, h4, hs, hidx]

/-! ## The read registers after the edge -/

/-- A way the edge leaves clean has the words it had. -/
theorem next_data_of_clean (h : Inv P d ram) (hf : fillWrite d m = false)
    {i s : ℕ} (hd : (next P d r m).lines.dirty i s = false) (hv : d.eng.state ≠ .victim) :
    d.lines.dirty i s = false ∧
      ∀ o < P.words, (next P d r m).lines.data (P.row s o) i = d.lines.data (P.row s o) i := by
  rw [next_lines_of_quiet hv hf] at hd ⊢
  exact (serves_served' h).clean hd

/-- A row that the edge does not make stale is as it was read. -/
theorem fresh_next (hfresh : readStale P d r m = false) (i : ℕ) :
    nextData P d r m (readIndex P d r m) i = d.lines.data (readIndex P d r m) i ∧
      nextTag P d m (readSet P d r m) i = d.lines.tag (readSet P d r m) i ∧
      nextValid P d m i (readSet P d r m) = d.lines.valid i (readSet P d r m) := by
  simp only [readStale, Bool.or_eq_false_iff, Bool.and_eq_false_iff, beq_eq_false_iff_ne] at hfresh
  obtain ⟨hdata, hset⟩ := hfresh
  -- An array that is written is written in a row that `readStale` has compared.
  refine ⟨?_, ?_, ?_⟩
  · unfold nextData
    split
    · rename_i hw
      have hne := hdata.resolve_left (by simp [hw])
      exact update2_of_ne _ _ fun h => hne h.1.symm
    · rfl
  · unfold nextTag
    split
    · rename_i hlast
      have hne := hset.resolve_left (by simp [setChange, hlast])
      exact update2_of_ne _ _ fun h => hne h.1.symm
    · rfl
  · unfold nextValid
    split
    · rename_i hv
      have hne := hset.resolve_left (by simp [setChange, hv])
      exact update2_of_ne _ _ fun h => hne h.2.symm
    · split
      · rename_i hlast
        have hne := hset.resolve_left (by simp [setChange, hlast])
        exact update2_of_ne _ _ fun h => hne h.2.symm
      · rfl

/-- A victim is chosen in the cycle after its tags are read. -/
theorem state_of_next_victim (hs : (nextEng P d r m).state = .victim) : d.eng.state = .tag := by
  unfold nextEng at hs
  cases hst : d.eng.state with
  | tag => rfl
  | _ =>
    simp only [hst] at hs
    split_ifs at hs <;> simp_all

/-- A bypass is in flight after the cycle that starts it, and until its response. -/
theorem state_of_next_bypass (hs : (nextEng P d r m).state = .bypass) :
    m.rvalid = false ∧
      (d.eng.state = .bypass ∨ (bypassGo d r = true ∧ m.gnt = true)) := by
  unfold nextEng at hs
  cases hst : d.eng.state with
  | tag => simp [hst] at hs
  | bypass =>
    simp only [hst] at hs
    split_ifs at hs with hrv
    exact ⟨by simpa using hrv, Or.inl rfl⟩
  | idle =>
    simp only [hst] at hs
    split_ifs at hs with hgo hg
    · simp only [Bool.and_eq_true, Bool.not_eq_true'] at hg
      exact ⟨hg.2, Or.inr ⟨hgo, hg.1⟩⟩
    · simp [hst] at hs
    · simp [hst] at hs
  | _ =>
    simp only [hst] at hs
    split_ifs at hs <;> simp_all

/-- Past its first cycle, the victim's readout comes from itself. -/
theorem state_of_next_evictRead (hs : (nextEng P d r m).state = .evictRead)
    (hpos : 0 < (nextEng P d r m).word) : d.eng.state = .evictRead ∧ d.eng.word ≠ P.words := by
  unfold nextEng at hs hpos
  cases hst : d.eng.state with
  | evictRead =>
    refine ⟨rfl, fun hw => ?_⟩
    simp only [hst, hw, if_true] at hs
    exact absurd hs (by simp)
  | victim =>
    simp only [hst] at hpos
    exact absurd hpos (Nat.lt_irrefl 0)
  | tag => simp [hst] at hs
  | _ =>
    simp only [hst] at hs
    split_ifs at hs <;> simp_all

/-- The engine in IDLE. -/
theorem nextEng_of_idle (hst : d.eng.state = .idle) :
    nextEng P d r m =
      if bypassGo d r then
        if m.gnt && !m.rvalid then { d.eng with state := .bypass } else d.eng
      else if !mshrEmpty d then
        { d.eng with state := .tag, clean := false, set := P.setOf (head d).line }
      else if r.cleanReq && dirtyAny P d then { d.eng with state := .scan }
      else d.eng := by
  simp only [nextEng, hst]

/-- The engine in SCAN. -/
theorem nextEng_of_scan (hst : d.eng.state = .scan) :
    nextEng P d r m =
      if !mshrEmpty d || !r.cleanReq || !dirtyAny P d then { d.eng with state := .idle }
      else if scanDirty P d then { d.eng with state := .tag, clean := true, set := d.eng.scanSet }
      else { d.eng with scanSet := (d.eng.scanSet + 1) % P.sets } := by
  simp only [nextEng, hst]

/-- Only an engine that is idle or scans turns to another set. -/
theorem target_next (hi : d.eng.state ≠ .idle) (hsc : d.eng.state ≠ .scan) :
    (nextEng P d r m).set = d.eng.set ∧ (nextEng P d r m).clean = d.eng.clean := by
  unfold nextEng
  cases hst : d.eng.state with
  | idle => exact absurd hst hi
  | scan => exact absurd hst hsc
  | tag => exact ⟨rfl, rfl⟩
  | victim => exact ⟨rfl, rfl⟩
  | evictRead => dsimp only; split_ifs <;> exact ⟨rfl, rfl⟩
  | evictWrite => dsimp only; split_ifs <;> exact ⟨rfl, rfl⟩
  | fill => dsimp only; split_ifs <;> exact ⟨rfl, rfl⟩
  | bypass => dsimp only; split_ifs <;> exact ⟨rfl, rfl⟩

/-- In `E_EVICT_READ` the engine takes one step of the read, from the read register. -/
theorem nextEng_of_evictRead (hst : d.eng.state = .evictRead) :
    nextEng P d r m = d.eng.evictReadStep P (d.rd.data d.eng.way) := by
  simp only [nextEng, hst, Engine.evictReadStep]

/-- A read that is not stale was of a row that the arrays still have. -/
theorem rowsFresh_next : RowsFresh P (next P d r m) := by
  intro hfresh i _
  have hstale : readStale P d r m = false := by
    change (!readStale P d r m) = true at hfresh
    simpa using hfresh
  obtain ⟨h1, h2, h3⟩ := fresh_next hstale i
  exact ⟨h1.symm, h2.symm, h3.symm⟩

/-- What has been read from the arrays is what they hold at the address last read. -/
theorem readInv_next (h : Inv P d ram) : ReadInv P (next P d r m) where
  fresh := rowsFresh_next
  victim hs i _ := by
    have hold : d.eng.state = .tag := state_of_next_victim hs
    have hset : (next P d r m).eng.set = d.eng.set := by
      change (nextEng P d r m).set = d.eng.set
      simp [nextEng, hold]
    -- The tag step has claimed the read port for its own set.
    have hread : readSet P d r m = d.eng.set := by
      simp [readSet, readIndex, claimTag, hold, P.row_div P.words_pos]
    have hlast : fillLast P d m = false := by simp [fillLast, fillWrite, hold]
    have htag : nextTag P d m = d.lines.tag := by simp [nextTag, hlast]
    change d.lines.tag (readSet P d r m) i = nextTag P d m (next P d r m).eng.set i
    rw [hset, hread, htag]
  evict hs hd hpos := by
    obtain ⟨hst, hw⟩ := state_of_next_evictRead hs hpos
    have heng : (next P d r m).eng = d.eng.evictReadStep P (d.rd.data d.eng.way) :=
      nextEng_of_evictRead hst
    have hword : (next P d r m).eng.word = d.eng.word + 1 := by
      rw [heng, Engine.evictReadStep, if_neg hw]
    have hwle := h.eng.read_word hst
    have hlt : d.eng.word < P.words := by omega
    have hf : fillWrite d m = false := by simp [fillWrite, hst]
    have hway : (next P d r m).eng.way = d.eng.way := by rw [heng, evictReadStep_way]
    have hset : (next P d r m).eng.set = d.eng.set := by rw [heng, evictReadStep_set]
    rw [hway, hset] at hd
    -- So has the eviction, for the word it is at.
    have hread : readIndex P d r m = P.row d.eng.set d.eng.word := by
      simp [readIndex, claimTag, claimEvict, hst, hw, engWordIndex, Nat.mod_eq_of_lt hlt]
    obtain ⟨-, hsame⟩ := next_data_of_clean h hf hd (by simp [hst])
    rw [hway, hset, hword, Nat.add_sub_cancel, hsame _ hlt]
    change d.lines.data (readIndex P d r m) d.eng.way = _
    rw [hread]

/-! ## The edge -/

/-- **What the memory answers**: a fill gets the RAM's word, and the response to an eviction's
write comes when the RAM has it. -/
structure MemOk (P : DcacheParams) (d : Dcache) (ram : Ram) (m : MemRsp) : Prop where
  fill : d.eng.state = .fill → m.rvalid = true →
    m.rdata = ram (P.lineWord (head d).line d.eng.word)
  write : d.eng.state = .evictWrite → m.rvalid = true →
    ram (P.lineWord (d.eng.evictLine P) d.eng.word) = d.eng.evictBuf d.eng.word

/-- The engine and the view after the edge, over the arrays the edge leaves. -/
def Advances (P : DcacheParams) (d : Dcache) (r : DcacheReq) (m : MemRsp) (ram : Ram) : Prop :=
  LinesInv P (next P d r m).lines ∧ EngineInv P (next P d r m).lines (next P d r m).eng ram ∧
    view P (next P d r m).lines (next P d r m).eng ram = view P (served' P d r m) d.eng ram

/-- The victim is one of the ways. -/
theorem victim_lt : victim P d < P.numWays := by
  unfold victim
  cases hf : (List.range P.numWays).find? _ with
  | none => exact plruVictim_lt _ _
  | some k => exact List.mem_range.mp (List.mem_of_find?_eq_some hf)

/-- The engine moves among the states that move no line. -/
theorem advances_control (h : Inv P d ram) (hv : d.eng.state ≠ .victim)
    (hf : fillWrite d m = false) (hne : ¬ d.eng.Evicting)
    (hset : (nextEng P d r m).set < P.sets) (hscan : (nextEng P d r m).scanSet < P.sets)
    (hne' : ¬ (nextEng P d r m).Evicting) (hf' : (nextEng P d r m).state ≠ .fill)
    (hhead : (nextEng P d r m).Serving →
      ∃ L, d.lines.waiting.head? = some L ∧ (nextEng P d r m).set = P.setOf L) :
    Advances P d r m ram := by
  have hs := serves_served' (r := r) (m := m) h
  have hlines := next_lines_of_quiet (P := P) (r := r) hv hf
  have heng : EngineInv P (served' P d r m) (nextEng P d r m) ram :=
    hs.eng.control hne hset hscan hne' hf' fun hserv => by
      obtain ⟨L, hL, hsetL⟩ := hhead hserv
      exact ⟨L, hs.head hL, hsetL⟩
  unfold Advances
  rw [hlines]
  exact ⟨hs.lines, heng, view_control hne hne'⟩

/-- The oldest MSHR, as the head of the waiting lines. -/
theorem waiting_head (hm : mshrEmpty d = false) :
    d.lines.waiting.head? = some (head d).line := by
  unfold mshrEmpty at hm
  unfold Lines.waiting head
  cases hml : d.lines.mshr with
  | nil => simp [hml] at hm
  | cons a t => rfl

/-- **IDLE** moves no word. -/
theorem advances_idle (h : Inv P d ram) (hs : d.eng.state = .idle) : Advances P d r m ram := by
  have hf : fillWrite d m = false := by simp [fillWrite, hs]
  have hset := h.eng.set_lt
  have hscan := h.eng.scan_lt
  refine advances_control h (by simp [hs]) hf (by simp [Engine.Evicting, hs]) ?_ ?_ ?_ ?_ ?_ <;>
    rw [nextEng_of_idle hs] <;> split_ifs <;>
      simp_all [Engine.Evicting, Engine.Serving, P.setOf_lt, waiting_head]

/-- **SCAN** moves no word. -/
theorem advances_scan (h : Inv P d ram) (hs : d.eng.state = .scan) : Advances P d r m ram := by
  have hf : fillWrite d m = false := by simp [fillWrite, hs]
  have hset := h.eng.set_lt
  have hscan := h.eng.scan_lt
  have hmod : (d.eng.scanSet + 1) % P.sets < P.sets := Nat.mod_lt _ P.sets_pos
  refine advances_control h (by simp [hs]) hf (by simp [Engine.Evicting, hs]) ?_ ?_ ?_ ?_ ?_ <;>
    rw [nextEng_of_scan hs] <;> split_ifs <;> simp_all [Engine.Evicting, Engine.Serving]

/-- **TAG** moves no word. -/
theorem advances_tag (h : Inv P d ram) (hs : d.eng.state = .tag) : Advances P d r m ram := by
  have hf : fillWrite d m = false := by simp [fillWrite, hs]
  have hnext : nextEng P d r m = { d.eng with state := .victim } := by simp only [nextEng, hs]
  refine advances_control h (by simp [hs]) hf (by simp [Engine.Evicting, hs]) ?_ ?_ ?_ ?_ ?_ <;>
    rw [hnext]
  · exact h.eng.set_lt
  · exact h.eng.scan_lt
  · simp [Engine.Evicting]
  · simp
  · exact fun hserv => h.eng.head ⟨hserv.1, Or.inl hs⟩

/-- **BYPASS** moves no word. -/
theorem advances_bypass (h : Inv P d ram) (hs : d.eng.state = .bypass) : Advances P d r m ram := by
  have hf : fillWrite d m = false := by simp [fillWrite, hs]
  have hset := h.eng.set_lt
  have hscan := h.eng.scan_lt
  have hnext : nextEng P d r m = if m.rvalid then { d.eng with state := .idle } else d.eng := by
    simp only [nextEng, hs]
  refine advances_control h (by simp [hs]) hf (by simp [Engine.Evicting, hs]) ?_ ?_ ?_ ?_ ?_ <;>
    rw [hnext] <;> split_ifs <;> simp_all [Engine.Evicting, Engine.Serving]

/-- **VICTIM** takes the line out of the arrays, and evicts it when it is dirty. -/
theorem advances_victim (h : Inv P d ram) (hs : d.eng.state = .victim) : Advances P d r m ram := by
  have hway := victim_lt (P := P) (d := d)
  have hserved := served'_of_no_lookup (lookup_of_block (P := P) (r := r) (m := m) (Or.inl hs))
  have hnext : nextEng P d r m = d.eng.takeOut d.lines (victim P d) := by
    simp only [nextEng, hs, Engine.takeOut, victimDirty, h.rd.victim hs _ hway]
    rfl
  unfold Advances
  change LinesInv P (next P d r m).lines ∧ EngineInv P (next P d r m).lines (nextEng P d r m) ram ∧
    view P (next P d r m).lines (nextEng P d r m) ram = _
  rw [next_lines_of_victim hs, hnext, hserved]
  exact ⟨h.lines.takeOut _ _, h.eng.takeOut h.lines hs hway, view_takeOut h.lines h.eng hs hway⟩

/-- **EVICT_READ** takes a word of the line out. -/
theorem advances_evictRead (h : Inv P d ram) (hs : d.eng.state = .evictRead) :
    Advances P d r m ram := by
  have hf : fillWrite d m = false := by simp [fillWrite, hs]
  have hserves := serves_served' (r := r) (m := m) h
  have hread : (served' P d r m).dirty d.eng.way d.eng.set = false → 0 < d.eng.word →
      d.rd.data d.eng.way =
        (served' P d r m).data (P.row d.eng.set (d.eng.word - 1)) d.eng.way := by
    intro hd hpos
    obtain ⟨hold, hsame⟩ := hserves.clean hd
    have hle := h.eng.read_word hs
    rw [hsame _ (by omega)]
    exact h.rd.evict hs hold hpos
  unfold Advances
  change LinesInv P (next P d r m).lines ∧ EngineInv P (next P d r m).lines (nextEng P d r m) ram ∧
    view P (next P d r m).lines (nextEng P d r m) ram = _
  rw [next_lines_of_quiet (by simp [hs]) hf, nextEng_of_evictRead hs]
  exact ⟨hserves.lines, hserves.eng.evictReadStep hs hread, view_evictReadStep hs⟩

/-- **EVICT_WRITE** writes one to RAM. -/
theorem advances_evictWrite (h : Inv P d ram) (hm : MemOk P d ram m)
    (hs : d.eng.state = .evictWrite) : Advances P d r m ram := by
  have hf : fillWrite d m = false := by simp [fillWrite, hs]
  have hserves := serves_served' (r := r) (m := m) h
  have hidx : engWordIndex P d = d.eng.word := Nat.mod_eq_of_lt (h.eng.write_word hs)
  unfold Advances
  change LinesInv P (next P d r m).lines ∧ EngineInv P (next P d r m).lines (nextEng P d r m) ram ∧
    view P (next P d r m).lines (nextEng P d r m) ram = _
  rw [next_lines_of_quiet (by simp [hs]) hf]
  cases hrv : m.rvalid
  · have hnext : nextEng P d r m = d.eng := by simp [nextEng, hs, hrv]
    rw [hnext]
    exact ⟨hserves.lines, hserves.eng, rfl⟩
  · have hnext : nextEng P d r m = d.eng.evictWriteStep P := by
      simp [nextEng, hs, hrv, Engine.evictWriteStep, hidx]
    have hcur := hm.write hs hrv
    rw [hnext]
    exact ⟨hserves.lines, hserves.eng.evictWriteStep hserves.lines hs hcur,
      view_evictWriteStep hserves.lines hserves.eng hs hcur⟩

/-- **FILL** brings one in from RAM, under the stores that wait for it. -/
theorem advances_fill (h : Inv P d ram) (hm : MemOk P d ram m) (hs : d.eng.state = .fill) :
    Advances P d r m ram := by
  have hw := h.eng.fill_word hs
  have hidx : engWordIndex P d = d.eng.word := Nat.mod_eq_of_lt hw
  -- A fill serves the oldest MSHR.
  obtain ⟨L, hL, -⟩ := h.eng.head ⟨h.eng.fill_mode hs, Or.inr (Or.inr (Or.inr hs))⟩
  have hhead : d.lines.mshr.head? = some (head d) := by
    unfold Lines.waiting at hL
    unfold head
    cases hml : d.lines.mshr with
    | nil => simp [hml] at hL
    | cons a t => rfl
  unfold Advances
  change LinesInv P (next P d r m).lines ∧ EngineInv P (next P d r m).lines (nextEng P d r m) ram ∧
    view P (next P d r m).lines (nextEng P d r m) ram = _
  cases hrv : m.rvalid
  · -- no word lands: only a request may be served
    have hf : fillWrite d m = false := by simp [fillWrite, hrv]
    have hserves := serves_served' (r := r) (m := m) h
    have hnext : nextEng P d r m = d.eng := by simp [nextEng, hs, fillLast, hf]
    rw [next_lines_of_quiet (by simp [hs]) hf, hnext]
    exact ⟨hserves.lines, hserves.eng, rfl⟩
  · have hf : fillWrite d m = true := by simp [fillWrite, hrv, hs]
    -- The word that lands is the RAM's, with the MSHR's bytes over it.
    have hdata : merge ((head d).be d.eng.word) ((head d).data d.eng.word) m.rdata =
        merge ((head d).be d.eng.word) ((head d).data d.eng.word)
          (ram (P.lineWord (head d).line d.eng.word)) := by rw [hm.fill hs hrv]
    rw [served'_of_no_lookup (lookup_of_block (Or.inr hf))]
    cases hlast : fillLast P d m
    · have hne : d.eng.word ≠ P.words - 1 := by
        intro heq
        simp [fillLast, hf, hidx, heq] at hlast
      have hnext : nextEng P d r m = { d.eng with word := d.eng.word + 1 } := by
        simp [nextEng, hs, hlast, hf]
      rw [next_lines_of_fillWrite hf hlast hw, hnext, hdata]
      exact ⟨h.lines.fillWord, h.eng.fillWord hs hhead rfl hne,
        view_fillWord h.lines h.eng hs⟩
    · have heq : d.eng.word = P.words - 1 := by
        simp only [fillLast, Bool.and_eq_true, beq_iff_eq, hidx] at hlast
        exact hlast.2
      have hnext : nextEng P d r m = { d.eng with state := .idle, word := d.eng.word + 1 } := by
        simp [nextEng, hs, hlast]
      -- A line without store bytes is as clean as the RAM.
      have hbe : (anyIndex P.words fun w => (head d).be w != 0#4) = false →
          ∀ o < P.words, (head d).be o = 0#4 := by
        intro hany o ho
        by_contra hne
        have htrue := (anyIndex_iff (p := fun w => (head d).be w != 0#4)).mpr
          ⟨o, ho, by simpa using hne⟩
        rw [hany] at htrue
        exact absurd htrue (by simp)
      rw [next_lines_of_fillLast hlast hw, hnext, hdata]
      exact ⟨h.lines.fillDone (h.eng.setOf_head hs hhead) hhead,
        h.eng.fillDone hs hhead heq rfl hbe _,
        view_fillDone h.lines h.eng hs hhead heq rfl _⟩

/-- **One edge, in every engine state.** -/
theorem advances (h : Inv P d ram) (hm : MemOk P d ram m) : Advances P d r m ram := by
  cases hs : d.eng.state with
  | idle => exact advances_idle h hs
  | tag => exact advances_tag h hs
  | victim => exact advances_victim h hs
  | evictRead => exact advances_evictRead h hs
  | evictWrite => exact advances_evictWrite h hm hs
  | fill => exact advances_fill h hm hs
  | scan => exact advances_scan h hs
  | bypass => exact advances_bypass h hs

/-- The invariant after the edge. -/
theorem inv_next (h : Inv P d ram) (hm : MemOk P d ram m) : Inv P (next P d r m) ram :=
  ⟨(advances h hm).1, (advances h hm).2.1, readInv_next h⟩

/-- **The view after the edge**: a served store has written its bytes, anything else nothing. -/
theorem view_next (h : Inv P d ram) (hm : MemOk P d ram m) :
    view P (next P d r m).lines (next P d r m).eng ram =
      if storeServed P d r m then
        Function.update (view P d.lines d.eng ram) (DcacheParams.wordAddr r.addr)
          (merge (laneBe r) (laneData r) (view P d.lines d.eng ram
            (DcacheParams.wordAddr r.addr)))
      else view P d.lines d.eng ram :=
  (advances h hm).2.2.trans (serves_served' h).view

end Dcache

end Synapse32
