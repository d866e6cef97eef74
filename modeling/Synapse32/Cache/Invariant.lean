import Synapse32.Cache.View

/-! # The cache invariant, and what serving a request does to it

The invariant has a part about the arrays and the MSHRs alone and a part that ties the engine and
the RAM to them. A served request changes the arrays or the MSHRs in one of three ways; each keeps
the invariant and changes the view in at most the addressed bytes. -/

namespace Synapse32

open ByteLanes

variable {P : DcacheParams}

/-! ## The invariant -/

/-- A line of one of the two RAM regions. -/
def DcacheParams.RamLine (P : DcacheParams) (L : ℕ) : Prop :=
  ∃ a : Word, isRam a = true ∧ P.lineOf a = L

/-- The lines that have an MSHR, the oldest first. -/
def Lines.waiting (l : Lines) : List ℕ := l.mshr.map Mshr.line

/-- **Arrays and MSHRs**: a line is in one place, dirty lines are valid, and only RAM lines get
in. -/
structure LinesInv (P : DcacheParams) (l : Lines) : Prop where
  unique : ∀ {L i j}, l.Holds P L i → l.Holds P L j → i = j
  dirty_valid : ∀ {i s}, i < P.numWays → s < P.sets → l.dirty i s = true → l.valid i s = true
  nodup : l.waiting.Nodup
  uncached : ∀ {L}, L ∈ l.waiting → ∀ i, ¬ l.Holds P L i
  count : l.mshr.length ≤ P.numMshr
  ram_holds : ∀ {L i}, l.Holds P L i → P.RamLine L
  ram_waiting : ∀ {L}, L ∈ l.waiting → P.RamLine L

/-- The engine works on the oldest MSHR. -/
def Engine.Serving (e : Engine) : Prop :=
  e.clean = false ∧ (e.state = .tag ∨ e.state = .victim ∨ e.Evicting ∨ e.state = .fill)

/-- **Engine and RAM**: which way the engine has taken out or is filling, how far it got, and that
a clean line agrees with the RAM unless it is just being written back. -/
structure EngineInv (P : DcacheParams) (l : Lines) (e : Engine) (ram : Ram) : Prop where
  set_lt : e.set < P.sets
  scan_lt : e.scanSet < P.sets
  way_lt : e.Evicting ∨ e.state = .fill → e.way < P.numWays
  head : e.Serving → ∃ L, l.waiting.head? = some L ∧ e.set = P.setOf L
  fill_mode : e.state = .fill → e.clean = false
  evict_tag : e.Evicting → l.tag e.set e.way = e.tag
  evict_valid : e.Evicting → l.valid e.way e.set = e.clean
  evict_gone : e.Evicting → e.clean = false → ∀ i, ¬ l.Holds P (e.evictLine P) i
  evict_ram : e.Evicting → P.RamLine (e.evictLine P)
  fill_invalid : e.state = .fill → l.valid e.way e.set = false
  clean_data : ∀ {L i}, l.Holds P L i → l.dirty i (P.setOf L) = false →
    ¬ (e.Evicting ∧ L = e.evictLine P) →
    ∀ o < P.words, l.data (P.row (P.setOf L) o) i = ram (P.lineWord L o)
  read_word : e.state = .evictRead → e.word ≤ P.words
  read_buf : e.state = .evictRead → l.dirty e.way e.set = false →
    ∀ o, o + 1 < e.word → e.evictBuf o = l.data (P.row e.set o) e.way
  write_word : e.state = .evictWrite → e.word < P.words
  write_buf : e.state = .evictWrite → l.dirty e.way e.set = false →
    ∀ o < P.words, e.evictBuf o = l.data (P.row e.set o) e.way
  write_ram : e.state = .evictWrite →
    ∀ o < e.word, ram (P.lineWord (e.evictLine P) o) = e.evictBuf o
  fill_word : e.state = .fill → e.word < P.words
  fill_data : e.state = .fill → ∀ {h}, l.mshr.head? = some h → ∀ o < e.word,
    l.data (P.row e.set o) e.way = merge (h.be o) (h.data o) (ram (P.lineWord h.line o))

/-- The line being evicted lies in the engine's set. -/
theorem setOf_evictLine {e : Engine} (h : e.set < P.sets) : P.setOf (e.evictLine P) = e.set :=
  P.setOf_line e.tag h

/-- The line being evicted has the engine's tag. -/
theorem tagOf_evictLine {e : Engine} (h : e.set < P.sets) : P.tagOf (e.evictLine P) = e.tag :=
  P.tagOf_line e.tag h

/-- A line being written back for a clean is still in its way. -/
theorem EngineInv.holds_evictLine {l : Lines} {e : Engine} {ram : Ram} (h : EngineInv P l e ram)
    (he : e.Evicting) (hc : e.clean = true) : l.Holds P (e.evictLine P) e.way := by
  refine ⟨h.way_lt (Or.inl he), ?_, ?_⟩
  · rw [setOf_evictLine h.set_lt, h.evict_valid he, hc]
  · rw [setOf_evictLine h.set_lt, tagOf_evictLine h.set_lt]
    exact h.evict_tag he

/-- A line that is held is not in the way being filled, whose valid bit is off. -/
theorem EngineInv.not_filling_of_holds {l : Lines} {e : Engine} {ram : Ram}
    (he : EngineInv P l e ram) (hs : e.state = .fill) {L i : ℕ} (hi : l.Holds P L i) :
    ¬ (i = e.way ∧ P.setOf L = e.set) := by
  rintro ⟨rfl, hset⟩
  have hinv := he.fill_invalid hs
  rw [← hset, hi.2.1] at hinv
  exact absurd hinv (by simp)

/-- In a RAM line every word is RAM, and its byte address fits in 32 bits. -/
theorem ramLine_word {L o : ℕ} (h : P.RamLine L) (ho : o < P.words) :
    P.lineWord L o * 4 < 2 ^ 32 ∧ isRam (BitVec.ofNat 32 (P.lineWord L o * 4)) = true := by
  obtain ⟨a, ha, rfl⟩ := h
  -- lines do not straddle a page, and both regions are made of whole pages
  obtain ⟨k, hk⟩ : ∃ k, 1024 = k * P.words := by
    refine ⟨2 ^ (10 - P.wordOffsetBits), ?_⟩
    have hle : P.wordOffsetBits ≤ 10 := by
      have := P.wordIndexBits_le
      omega
    rw [DcacheParams.words, ← pow_add, Nat.sub_add_cancel hle]
    rfl
  have hpage : P.lineWord (P.lineOf a) o / 1024 = a.toNat / 4096 := by
    have hw : a.toNat / 4 / P.words / k = a.toNat / 4096 := by
      rw [Nat.div_div_eq_div_mul, Nat.mul_comm P.words k, ← hk, Nat.div_div_eq_div_mul]
    rw [hk, Nat.mul_comm k, ← Nat.div_div_eq_div_mul, P.lineWord_div ho]
    exact hw
  have hlt := a.isLt
  simp only [isRam, isInstrMem, isDataMem, Bool.or_eq_true, Bool.and_eq_true, decide_eq_true_eq,
    BitVec.le_def, BitVec.toNat_ofNat] at ha ⊢
  have hbound : P.lineWord (P.lineOf a) o * 4 < 2 ^ 32 := by omega
  rw [Nat.mod_eq_of_lt hbound]
  omega

/-! ## Updating one word of one way -/

/-- An updated entry reads back. -/
theorem update2_self {α : Type*} (f : ℕ → ℕ → α) (a b : ℕ) (v : α) : update2 f a b v a b = v :=
  if_pos ⟨rfl, rfl⟩

/-- Every other entry keeps its value. -/
theorem update2_of_ne {α : Type*} (f : ℕ → ℕ → α) {a b x y : ℕ} (v : α) (h : ¬ (x = a ∧ y = b)) :
    update2 f a b v x y = f x y :=
  if_neg h

/-- A write to one word of a way is not seen in another set or way, nor in another word. -/
theorem update2_row {f : ℕ → ℕ → Word} {s i o s' i' o' : ℕ} (v : Word) (ho : o < P.words)
    (ho' : o' < P.words) (h : ¬ (s' = s ∧ i' = i ∧ o' = o)) :
    update2 f (P.row s o) i v (P.row s' o') i' = f (P.row s' o') i' := by
  refine update2_of_ne f v ?_
  rintro ⟨hr, rfl⟩
  obtain ⟨rfl, rfl⟩ := P.row_inj ho' ho hr
  exact h ⟨rfl, rfl, rfl⟩

/-! ## A store that hits -/

/-- The arrays after a store of `v` into word `o` of line `L`, held by way `i`. -/
def Lines.hit (P : DcacheParams) (l : Lines) (L i o : ℕ) (v : Word) : Lines :=
  { l with
    data := update2 l.data (P.row (P.setOf L) o) i v
    dirty := update2 l.dirty i (P.setOf L) true }

section Hit

variable {l : Lines} {e : Engine} {ram : Ram} {L i o : ℕ} {v : Word}

/-- **A store hit keeps the invariant of the lines**: it touches neither tags nor MSHRs. -/
theorem LinesInv.hit (hl : LinesInv P l) (hh : l.Holds P L i) : LinesInv P (l.hit P L i o v) where
  unique := hl.unique
  dirty_valid := by
    intro j s hj hs hd
    by_cases hjs : j = i ∧ s = P.setOf L
    · obtain ⟨rfl, rfl⟩ := hjs
      exact hh.2.1
    · change update2 l.dirty i (P.setOf L) true j s = true at hd
      rw [update2_of_ne _ _ hjs] at hd
      exact hl.dirty_valid hj hs hd
  nodup := hl.nodup
  uncached := hl.uncached
  count := hl.count
  ram_holds := hl.ram_holds
  ram_waiting := hl.ram_waiting

/-- A way that is still clean after the store was clean before, and is not the one stored to. -/
theorem dirty_of_hit {j s : ℕ} (h : (l.hit P L i o v).dirty j s = false) :
    ¬ (j = i ∧ s = P.setOf L) ∧ l.dirty j s = false := by
  change update2 l.dirty i (P.setOf L) true j s = false at h
  by_cases hjs : j = i ∧ s = P.setOf L
  · obtain ⟨rfl, rfl⟩ := hjs
    rw [update2_self] at h
    exact absurd h (by simp)
  · rw [update2_of_ne _ _ hjs] at h
    exact ⟨hjs, h⟩

/-- A store hit leaves the words of other ways and sets. -/
theorem data_of_hit {s j o' : ℕ} (ho : o < P.words) (ho' : o' < P.words)
    (h : ¬ (j = i ∧ s = P.setOf L)) :
    (l.hit P L i o v).data (P.row s o') j = l.data (P.row s o') j := by
  refine update2_row v ho ho' ?_
  rintro ⟨rfl, rfl, -⟩
  exact h ⟨rfl, rfl⟩

/-- **A store hit keeps the invariant of the engine**: no line that it evicts or fills is in. -/
theorem EngineInv.hit (he : EngineInv P l e ram) (hh : l.Holds P L i) (ho : o < P.words) :
    EngineInv P (l.hit P L i o v) e ram where
  set_lt := he.set_lt
  scan_lt := he.scan_lt
  way_lt := he.way_lt
  head := he.head
  fill_mode := he.fill_mode
  evict_tag := he.evict_tag
  evict_valid := he.evict_valid
  evict_gone := he.evict_gone
  evict_ram := he.evict_ram
  fill_invalid := he.fill_invalid
  clean_data := by
    intro L' j hj hd hne o' ho'
    obtain ⟨hji, hd⟩ := dirty_of_hit hd
    rw [data_of_hit ho ho' hji]
    exact he.clean_data hj hd hne o' ho'
  read_word := he.read_word
  read_buf := by
    intro hs hd o' ho'
    obtain ⟨hji, hd⟩ := dirty_of_hit hd
    have hw := he.read_word hs
    rw [data_of_hit ho (by omega) hji]
    exact he.read_buf hs hd o' ho'
  write_word := he.write_word
  write_buf := by
    intro hs hd o' ho'
    obtain ⟨hji, hd⟩ := dirty_of_hit hd
    rw [data_of_hit ho ho' hji]
    exact he.write_buf hs hd o' ho'
  write_ram := he.write_ram
  fill_word := he.fill_word
  fill_data := by
    intro hs h hm o' ho'
    -- The way that is filled holds no line, so the store does not hit it.
    have hji : ¬ (e.way = i ∧ e.set = P.setOf L) := fun hx =>
      he.not_filling_of_holds hs hh ⟨hx.1.symm, hx.2.symm⟩
    have hw := he.fill_word hs
    rw [data_of_hit ho (by omega) hji]
    exact he.fill_data hs hm o' ho'

/-- **A store hit writes the view at its word.** -/
theorem view_hit (hl : LinesInv P l) (he : EngineInv P l e ram) (hh : l.Holds P L i)
    (ho : o < P.words) :
    view P (l.hit P L i o v) e ram = Function.update (view P l e ram) (P.lineWord L o) v := by
  have huniq : ∀ j, (l.hit P L i o v).Holds P L j → j = i := fun j hj => hl.unique hj hh
  refine view_update ho ?_ ?_
  · rw [viewWord_of_holds huniq hh]
    exact update2_self _ _ _ _
  · intro L' o' ho' hne
    by_cases hc : ∃ j, l.Holds P L' j
    · obtain ⟨j, hj⟩ := hc
      rw [viewWord_of_holds (fun k hk => hl.unique hk hj) hj,
        viewWord_of_holds (l := l.hit P L i o v)
          (fun k hk => hl.unique (show l.Holds P L' k from hk) hj) hj]
      refine update2_row v ho ho' ?_
      rintro ⟨hset, rfl, rfl⟩
      -- the same way in the same set holds one line
      have htag : P.tagOf L' = P.tagOf L := by rw [← hj.2.2, ← hh.2.2, hset]
      exact hne ⟨by rw [← P.line_tagOf_setOf L', ← P.line_tagOf_setOf L, hset, htag], rfl⟩
    · have hnot : ∀ j, ¬ l.Holds P L' j := fun j hj => hc ⟨j, hj⟩
      rw [viewWord_of_not_holds hnot, viewWord_of_not_holds (l := l.hit P L i o v) hnot]
      change overlay (l.pending L') o' _ = _
      congr 1
      unfold uncachedWord
      split
      · rename_i hev
        have hji : ¬ (e.way = i ∧ e.set = P.setOf L) := by
          rintro ⟨rfl, hset⟩
          have hinv := he.evict_valid hev.1
          rw [hev.2.1, hset, hh.2.1] at hinv
          exact absurd hinv (by simp)
        exact data_of_hit ho ho' hji
      · rfl

end Hit

/-! ## A store or a load that misses -/

/-- An MSHR with the bytes of a store to word `o` added. -/
def Mshr.store (e : Mshr) (o : ℕ) (be : BitVec 4) (v : Word) : Mshr :=
  { e with
    be := Function.update e.be o (e.be o ||| be)
    data := Function.update e.data o (merge be v (e.data o)) }

/-- A store leaves an MSHR with its line. -/
@[simp] theorem Mshr.store_line (e : Mshr) (o : ℕ) (be : BitVec 4) (v : Word) :
    (e.store o be v).line = e.line := rfl

/-- The bytes of an MSHR after a store, laid over a word. -/
theorem overlay_store (e : Mshr) (o : ℕ) (be : BitVec 4) (v w : Word) :
    overlay (some (e.store o be v)) o w = merge be v (overlay (some e) o w) := by
  simp only [overlay, Mshr.store, Function.update_self]
  rw [merge_merge]

/-- A store that waits is seen at its own word only. -/
theorem overlay_store_of_ne (e : Mshr) {o o' : ℕ} (be : BitVec 4) (v w : Word) (h : o' ≠ o) :
    overlay (some (e.store o be v)) o' w = overlay (some e) o' w := by
  simp only [overlay, Mshr.store, Function.update_of_ne h]

/-- The arrays after a store merged into MSHR `j`. -/
def Lines.mergeAt (l : Lines) (j o : ℕ) (be : BitVec 4) (v : Word) : Lines :=
  { l with mshr := l.mshr.modify j fun e => e.store o be v }

section Merge

variable {l : Lines} {e : Engine} {ram : Ram} {j o : ℕ} {be : BitVec 4} {v : Word} {m : Mshr}

/-- Merging into an MSHR changes no line that waits. -/
@[simp] theorem waiting_mergeAt : (l.mergeAt j o be v).waiting = l.waiting :=
  map_line_modify (fun e => e.store o be v) (fun _ => rfl) _ _

/-- **A merge keeps the invariant of the lines.** -/
theorem LinesInv.mergeAt (hl : LinesInv P l) : LinesInv P (l.mergeAt j o be v) where
  unique := hl.unique
  dirty_valid := hl.dirty_valid
  nodup := by rw [waiting_mergeAt]; exact hl.nodup
  uncached := by rw [waiting_mergeAt]; exact hl.uncached
  count := by
    change (l.mshr.modify j _).length ≤ _
    rw [List.length_modify]
    exact hl.count
  ram_holds := hl.ram_holds
  ram_waiting := by rw [waiting_mergeAt]; exact hl.ram_waiting

/-- **A merge keeps the invariant of the engine**, unless the line is being filled. -/
theorem EngineInv.mergeAt (he : EngineInv P l e ram) (hj : ¬ (e.state = .fill ∧ j = 0)) :
    EngineInv P (l.mergeAt j o be v) e ram where
  set_lt := he.set_lt
  scan_lt := he.scan_lt
  way_lt := he.way_lt
  head := by rw [waiting_mergeAt]; exact he.head
  fill_mode := he.fill_mode
  evict_tag := he.evict_tag
  evict_valid := he.evict_valid
  evict_gone := he.evict_gone
  evict_ram := he.evict_ram
  fill_invalid := he.fill_invalid
  clean_data := he.clean_data
  read_word := he.read_word
  read_buf := he.read_buf
  write_word := he.write_word
  write_buf := he.write_buf
  write_ram := he.write_ram
  fill_word := he.fill_word
  fill_data := by
    intro hs h hm
    -- entry 0 is untouched while it fills
    have hhead : (l.mshr.modify j fun e => e.store o be v).head? = l.mshr.head? := by
      cases j with
      | zero => exact absurd ⟨hs, rfl⟩ hj
      | succ j => cases l.mshr <;> simp
    exact he.fill_data hs (hhead ▸ hm)

/-- **A merged store writes its bytes of the view.** -/
theorem view_mergeAt (hl : LinesInv P l) (hj : l.mshr[j]? = some m) (ho : o < P.words) :
    view P (l.mergeAt j o be v) e ram =
      Function.update (view P l e ram) (P.lineWord m.line o)
        (merge be v (view P l e ram (P.lineWord m.line o))) := by
  have hmem : m ∈ l.mshr := List.mem_of_getElem? hj
  have hnot : ∀ i, ¬ l.Holds P m.line i := hl.uncached (List.mem_map_of_mem hmem)
  have hpend : l.pending m.line = some m := pending_eq_some hl.nodup hmem
  have hpend' : ∀ L, (l.mergeAt j o be v).pending L =
      if m.line = L then some (m.store o be v) else l.pending L := fun L =>
    find?_modify_line (fun e => e.store o be v) (fun _ => rfl) L l.mshr j m hl.nodup hj
  have hunc : ∀ L o', uncachedWord P (l.mergeAt j o be v) e ram L o' =
      uncachedWord P l e ram L o' := fun _ _ => rfl
  refine view_update ho ?_ ?_
  · rw [view_lineWord ho, viewWord_of_not_holds hnot,
      viewWord_of_not_holds (l := l.mergeAt j o be v) hnot, hpend', if_pos rfl, hpend, hunc,
      overlay_store]
  · intro L' o' ho' hne
    -- The array is not touched, so only the view of a waiting line can change.
    by_cases hc : ∃ i, l.Holds P L' i
    · obtain ⟨i, hi⟩ := hc
      rw [viewWord_of_holds (fun k hk => hl.unique hk hi) hi,
        viewWord_of_holds (l := l.mergeAt j o be v)
          (fun k hk => hl.unique (show l.Holds P L' k from hk) hi) hi]
      rfl
    · have hnot' : ∀ i, ¬ l.Holds P L' i := fun i hi => hc ⟨i, hi⟩
      rw [viewWord_of_not_holds hnot', viewWord_of_not_holds (l := l.mergeAt j o be v) hnot',
        hpend', hunc]
      by_cases hL : m.line = L'
      · subst hL
        have hoo : o' ≠ o := fun h => hne ⟨rfl, h⟩
        rw [if_pos rfl, overlay_store_of_ne _ _ _ _ hoo, hpend]
      · rw [if_neg hL]

end Merge

/-- A new MSHR without store bytes. -/
def Mshr.empty (L : ℕ) : Mshr := ⟨L, fun _ => 0#4, fun _ => 0#32⟩

/-- A new MSHR waits for the line it is opened for. -/
@[simp] theorem Mshr.empty_line (L : ℕ) : (Mshr.empty L).line = L := rfl

/-- The arrays after an MSHR is allocated. -/
def Lines.alloc (l : Lines) (m : Mshr) : Lines := { l with mshr := l.mshr ++ [m] }

section Alloc

variable {l : Lines} {e : Engine} {ram : Ram} {m : Mshr}

/-- A new MSHR is the last to wait. -/
@[simp] theorem waiting_alloc : (l.alloc m).waiting = l.waiting ++ [m.line] := by
  simp [Lines.waiting, Lines.alloc]

/-- **Opening an MSHR keeps the invariant of the lines**, for a line that is neither in nor waited
for. -/
theorem LinesInv.alloc (hl : LinesInv P l) (hnew : m.line ∉ l.waiting)
    (hnot : ∀ i, ¬ l.Holds P m.line i) (hlen : l.mshr.length < P.numMshr)
    (hram : P.RamLine m.line) : LinesInv P (l.alloc m) where
  unique := hl.unique
  dirty_valid := hl.dirty_valid
  nodup := by
    rw [waiting_alloc, List.nodup_append]
    exact ⟨hl.nodup, List.nodup_singleton _, by
      rintro a ha b hb rfl
      exact hnew (List.mem_singleton.mp hb ▸ ha)⟩
  uncached := by
    intro L hL
    rw [waiting_alloc, List.mem_append, List.mem_singleton] at hL
    rcases hL with hL | rfl
    · exact hl.uncached hL
    · exact hnot
  count := by
    change (l.mshr ++ [m]).length ≤ _
    rw [List.length_append, List.length_singleton]
    omega
  ram_holds := hl.ram_holds
  ram_waiting := by
    intro L hL
    rw [waiting_alloc, List.mem_append, List.mem_singleton] at hL
    rcases hL with hL | rfl
    · exact hl.ram_waiting hL
    · exact hram

/-- **Opening an MSHR keeps the invariant of the engine.** -/
theorem EngineInv.alloc (he : EngineInv P l e ram) : EngineInv P (l.alloc m) e ram where
  set_lt := he.set_lt
  scan_lt := he.scan_lt
  way_lt := he.way_lt
  head := by
    intro hs
    obtain ⟨L, hL, hset⟩ := he.head hs
    exact ⟨L, by rw [waiting_alloc, List.head?_append, hL]; rfl, hset⟩
  fill_mode := he.fill_mode
  evict_tag := he.evict_tag
  evict_valid := he.evict_valid
  evict_gone := he.evict_gone
  evict_ram := he.evict_ram
  fill_invalid := he.fill_invalid
  clean_data := he.clean_data
  read_word := he.read_word
  read_buf := he.read_buf
  write_word := he.write_word
  write_buf := he.write_buf
  write_ram := he.write_ram
  fill_word := he.fill_word
  fill_data := by
    intro hs h hm
    -- a filling engine has an entry 0, and the new one goes behind it
    obtain ⟨L, hL, -⟩ := he.head ⟨he.fill_mode hs, Or.inr (Or.inr (Or.inr hs))⟩
    have hhead : (l.mshr ++ [m]).head? = l.mshr.head? := by
      cases hmshr : l.mshr with
      | nil => simp [Lines.waiting, hmshr] at hL
      | cons a t => rfl
    exact he.fill_data hs (hhead ▸ hm)

/-- The pending bytes after an allocation. -/
theorem pending_alloc (L : ℕ) :
    (l.alloc m).pending L = (l.pending L).or (if m.line = L then some m else none) := by
  unfold Lines.pending Lines.alloc
  rw [List.find?_append]
  congr 1
  by_cases h : m.line = L <;> simp [h]

/-- The view after an allocation: the new line's words, with the MSHR's bytes over them. -/
theorem viewWord_alloc (hl : LinesInv P l) (hnew : m.line ∉ l.waiting)
    (hnot : ∀ i, ¬ l.Holds P m.line i) (L o : ℕ) :
    viewWord P (l.alloc m) e ram L o =
      if m.line = L then merge (m.be o) (m.data o) (viewWord P l e ram L o)
      else viewWord P l e ram L o := by
  have hunc : uncachedWord P (l.alloc m) e ram L o = uncachedWord P l e ram L o := rfl
  by_cases hc : ∃ i, l.Holds P L i
  · obtain ⟨i, hi⟩ := hc
    have hne : m.line ≠ L := by
      rintro rfl
      exact hnot i hi
    rw [if_neg hne, viewWord_of_holds (fun k hk => hl.unique hk hi) hi,
      viewWord_of_holds (l := l.alloc m)
        (fun k hk => hl.unique (show l.Holds P L k from hk) hi) hi]
    rfl
  · have hnot' : ∀ i, ¬ l.Holds P L i := fun i hi => hc ⟨i, hi⟩
    rw [viewWord_of_not_holds hnot', viewWord_of_not_holds (l := l.alloc m) hnot', hunc,
      pending_alloc]
    by_cases hL : m.line = L
    · subst hL
      have hnone : l.pending m.line = none :=
        pending_eq_none.mpr fun a ha h => hnew (h ▸ List.mem_map_of_mem ha)
      rw [hnone, if_pos rfl, if_pos rfl]
      rfl
    · rw [if_neg hL, if_neg hL, Option.or_none]

/-- **A load that allocates leaves the view alone.** -/
theorem view_alloc_empty {L : ℕ} (hl : LinesInv P l) (hnew : L ∉ l.waiting)
    (hnot : ∀ i, ¬ l.Holds P L i) :
    view P (l.alloc (Mshr.empty L)) e ram = view P l e ram := by
  refine view_ext fun L' o _ => ?_
  rw [viewWord_alloc hl hnew hnot]
  split
  · exact merge_zero _ _
  · rfl

/-- **A store that allocates writes its bytes of the view.** -/
theorem view_alloc_store {L o : ℕ} {be : BitVec 4} {v : Word} (hl : LinesInv P l)
    (hnew : L ∉ l.waiting) (hnot : ∀ i, ¬ l.Holds P L i) (ho : o < P.words) :
    view P (l.alloc ((Mshr.empty L).store o be v)) e ram =
      Function.update (view P l e ram) (P.lineWord L o)
        (merge be v (view P l e ram (P.lineWord L o))) := by
  have hword : ∀ L' o', viewWord P (l.alloc ((Mshr.empty L).store o be v)) e ram L' o' = _ :=
    viewWord_alloc hl hnew hnot
  refine view_update ho ?_ ?_
  · rw [hword, Mshr.store_line, Mshr.empty_line, if_pos rfl, view_lineWord ho]
    change overlay (some ((Mshr.empty L).store o be v)) o _ = _
    rw [overlay_store]
    congr 1
    exact merge_zero _ _
  · intro L' o' _ hne
    rw [hword]
    split
    · rename_i hL
      have hoo : o' ≠ o := fun h => hne ⟨hL.symm, h⟩
      change overlay (some ((Mshr.empty L).store o be v)) o' _ = _
      rw [overlay_store_of_ne _ _ _ _ hoo]
      exact merge_zero _ _
    · rfl

end Alloc

end Synapse32
