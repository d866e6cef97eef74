import Synapse32.Cache.Invariant

/-! # What the engine does to the cache invariant

The engine moves lines between the arrays, its buffer and the RAM. None of its steps changes the
view: each one moves a word from a place the view reads to another that it reads instead. -/

namespace Synapse32

open ByteLanes

variable {P : DcacheParams} {l : Lines} {e e' : Engine} {ram : Ram}

/-! ## Control steps -/

/-- Steps among the states that move no line. -/
theorem EngineInv.control (he : EngineInv P l e ram) (hne : ¬ e.Evicting) (hset : e'.set < P.sets)
    (hscan : e'.scanSet < P.sets) (hne' : ¬ e'.Evicting) (hf' : e'.state ≠ .fill)
    (hhead : e'.Serving → ∃ L, l.waiting.head? = some L ∧ e'.set = P.setOf L) :
    EngineInv P l e' ram where
  set_lt := hset
  scan_lt := hscan
  way_lt h := absurd h (by tauto)
  head := hhead
  fill_mode h := absurd h hf'
  evict_tag h := absurd h hne'
  evict_valid h := absurd h hne'
  evict_gone h := absurd h hne'
  evict_ram h := absurd h hne'
  fill_invalid h := absurd h hf'
  clean_data hh hd _ := he.clean_data hh hd fun h => hne h.1
  read_word h := absurd (Or.inl h) hne'
  read_buf h := absurd (Or.inl h) hne'
  write_word h := absurd (Or.inr h) hne'
  write_buf h := absurd (Or.inr h) hne'
  write_ram h := absurd (Or.inr h) hne'
  fill_word h := absurd h hf'
  fill_data h := absurd h hf'

/-- The view depends on the engine only through the line it evicts. -/
theorem view_control (hne : ¬ e.Evicting) (hne' : ¬ e'.Evicting) :
    view P l e' ram = view P l e ram := by
  have hunc : ∀ L o, uncachedWord P l e' ram L o = uncachedWord P l e ram L o := by
    intro L o
    unfold uncachedWord
    rw [if_neg fun h => hne' h.1, if_neg fun h => hne h.1]
  refine view_ext fun L o _ => ?_
  unfold viewWord
  rw [hunc]

/-! ## Taking a line out -/

/-- The arrays after the victim in way `i` of set `s` is chosen: it loses its dirty bit, and its
valid bit unless it is only written back. -/
def Lines.takeOut (l : Lines) (i s : ℕ) (clean : Bool) : Lines :=
  { l with
    valid := if clean then l.valid else update2 l.valid i s false
    dirty := update2 l.dirty i s false }

/-- The engine after the victim in way `i` is chosen. -/
def Engine.takeOut (e : Engine) (l : Lines) (i : ℕ) : Engine :=
  { e with
    way := i
    tag := l.tag e.set i
    word := 0
    state := if l.dirty i e.set then .evictRead else if e.clean then .scan else .fill }

section TakeOut

variable {i : ℕ}

/-- What is in the arrays afterwards was there before. -/
theorem holds_takeOut {s : ℕ} {c : Bool} {L j : ℕ} (h : (l.takeOut i s c).Holds P L j) :
    l.Holds P L j := by
  refine ⟨h.1, ?_, h.2.2⟩
  have hv := h.2.1
  cases c with
  | true => exact hv
  | false =>
    change update2 l.valid i s false j (P.setOf L) = true at hv
    by_cases hjs : j = i ∧ P.setOf L = s
    · obtain ⟨rfl, rfl⟩ := hjs
      rw [update2_self] at hv
      exact absurd hv (by simp)
    · rwa [update2_of_ne _ _ hjs] at hv

/-- Only the victim stops being held. -/
theorem holds_takeOut_of_ne {s : ℕ} {c : Bool} {L j : ℕ} (h : l.Holds P L j)
    (hne : c = true ∨ ¬ (j = i ∧ P.setOf L = s)) : (l.takeOut i s c).Holds P L j := by
  refine ⟨h.1, ?_, h.2.2⟩
  cases c with
  | true => exact h.2.1
  | false =>
    change update2 l.valid i s false j (P.setOf L) = true
    rw [update2_of_ne _ _ (hne.resolve_left (by simp))]
    exact h.2.1

/-- Only the way that is taken out loses its dirty bit. -/
theorem dirty_takeOut {s : ℕ} {c : Bool} {j s' : ℕ}
    (h : (l.takeOut i s c).dirty j s' = true) : ¬ (j = i ∧ s' = s) ∧ l.dirty j s' = true := by
  change update2 l.dirty i s false j s' = true at h
  by_cases hjs : j = i ∧ s' = s
  · obtain ⟨rfl, rfl⟩ := hjs
    rw [update2_self] at h
    exact absurd h (by simp)
  · rw [update2_of_ne _ _ hjs] at h
    exact ⟨hjs, h⟩

/-- **Taking a line out keeps the invariant of the lines.** -/
theorem LinesInv.takeOut (hl : LinesInv P l) (s : ℕ) (c : Bool) :
    LinesInv P (l.takeOut i s c) where
  unique h h' := hl.unique (holds_takeOut h) (holds_takeOut h')
  dirty_valid := by
    intro j s' hj hs' hd
    obtain ⟨hne, hd⟩ := dirty_takeOut hd
    have hv := hl.dirty_valid hj hs' hd
    cases c with
    | true => exact hv
    | false =>
      change update2 l.valid i s false j s' = true
      rwa [update2_of_ne _ _ hne]
  nodup := hl.nodup
  uncached hL j h := hl.uncached hL j (holds_takeOut h)
  count := hl.count
  ram_holds h := hl.ram_holds (holds_takeOut h)
  ram_waiting := hl.ram_waiting

/-- The victim, where it is valid, holds the line the engine takes out. -/
theorem holds_victim (hi : i < P.numWays) (hset : e.set < P.sets)
    (hv : l.valid i e.set = true) : l.Holds P ((e.takeOut l i).evictLine P) i := by
  have h1 : P.setOf ((e.takeOut l i).evictLine P) = e.set :=
    setOf_evictLine (P := P) (e := e.takeOut l i) hset
  have h2 : P.tagOf ((e.takeOut l i).evictLine P) = l.tag e.set i :=
    tagOf_evictLine (P := P) (e := e.takeOut l i) hset
  exact ⟨hi, by rw [h1, hv], by rw [h1, h2]⟩

/-- A line held by the victim way of the victim set is the line taken out. -/
theorem eq_evictLine {L : ℕ} (hset : e.set < P.sets) (h : l.Holds P L i)
    (hs : P.setOf L = e.set) : L = (e.takeOut l i).evictLine P :=
  (P.eq_line_iff hset).mpr ⟨hs, by rw [← h.2.2, hs]; rfl⟩

/-- The engine goes on to evict exactly when the line was dirty. -/
theorem takeOut_state_evicting : (e.takeOut l i).Evicting ↔ l.dirty i e.set = true := by
  unfold Engine.Evicting Engine.takeOut
  cases l.dirty i e.set <;> cases e.clean <;> simp

/-- **Taking a line out keeps the invariant of the engine**: the line is what the engine evicts
now. -/
theorem EngineInv.takeOut (hl : LinesInv P l) (he : EngineInv P l e ram) (hs : e.state = .victim)
    (hi : i < P.numWays) :
    EngineInv P (l.takeOut i e.set e.clean) (e.takeOut l i) ram where
  set_lt := he.set_lt
  scan_lt := he.scan_lt
  way_lt _ := hi
  head h := he.head ⟨h.1, Or.inr (Or.inl hs)⟩
  fill_mode h := by
    change (if l.dirty i e.set then EngState.evictRead else if e.clean then .scan else .fill) =
      .fill at h
    change e.clean = false
    cases hc : e.clean with
    | false => rfl
    | true =>
      rw [hc] at h
      cases hd : l.dirty i e.set <;> simp [hd] at h
  evict_tag _ := rfl
  evict_valid h := by
    have hd := takeOut_state_evicting.mp h
    have hv := hl.dirty_valid hi he.set_lt hd
    change (if e.clean then l.valid else update2 l.valid i e.set false) i e.set = e.clean
    cases e.clean with
    | true => exact hv
    | false => exact update2_self _ _ _ _
  evict_gone h hc j hj := by
    have hd := takeOut_state_evicting.mp h
    have hv := hl.dirty_valid hi he.set_lt hd
    have hold := holds_takeOut hj
    obtain rfl : j = i := hl.unique hold (holds_victim hi he.set_lt hv)
    -- its valid bit has just been cleared
    have hset : P.setOf ((e.takeOut l j).evictLine P) = e.set :=
      setOf_evictLine (P := P) (e := e.takeOut l j) he.set_lt
    have hval := hj.2.1
    rw [hset] at hval
    change (if e.clean then l.valid else update2 l.valid j e.set false) j e.set = true at hval
    rw [show e.clean = false from hc] at hval
    simp only [Bool.false_eq_true, if_false] at hval
    rw [update2_self] at hval
    exact absurd hval (by simp)
  evict_ram h := by
    have hd := takeOut_state_evicting.mp h
    exact hl.ram_holds (holds_victim hi he.set_lt (hl.dirty_valid hi he.set_lt hd))
  fill_invalid h := by
    change (if l.dirty i e.set then EngState.evictRead else if e.clean then .scan else .fill) =
      .fill at h
    change (if e.clean then l.valid else update2 l.valid i e.set false) i e.set = false
    cases hc : e.clean with
    | false => exact update2_self _ _ _ _
    | true =>
      rw [hc] at h
      cases hd : l.dirty i e.set <;> simp [hd] at h
  clean_data := by
    intro L j hj hd hne o ho
    have hold := holds_takeOut hj
    have hnot : ¬ e.Evicting := by simp [Engine.Evicting, hs]
    by_cases hjs : j = i ∧ P.setOf L = e.set
    · obtain ⟨rfl, hset⟩ := hjs
      -- the victim itself: it was clean, or it is now the line being evicted
      have hL := eq_evictLine he.set_lt hold hset
      have hclean : l.dirty j e.set = false := by
        by_contra hdirty
        exact hne ⟨takeOut_state_evicting.mpr (by simpa using hdirty), hL⟩
      exact he.clean_data hold (by rw [hset]; exact hclean) (fun h => hnot h.1) o ho
    · change update2 l.dirty i e.set false j (P.setOf L) = false at hd
      rw [update2_of_ne _ _ hjs] at hd
      exact he.clean_data hold hd (fun h => hnot h.1) o ho
  read_word _ := Nat.zero_le _
  read_buf _ _ o ho := absurd ho (Nat.not_lt_zero _)
  write_word _ := P.words_pos
  write_buf h := by
    change (if l.dirty i e.set then EngState.evictRead else if e.clean then .scan else .fill) =
      .evictWrite at h
    cases hd : l.dirty i e.set <;> cases hc : e.clean <;> simp [hd, hc] at h
  write_ram _ o ho := absurd ho (Nat.not_lt_zero _)
  fill_word _ := P.words_pos
  fill_data _ _ _ o ho := absurd ho (Nat.not_lt_zero _)

/-- **Taking a line out leaves the view alone**: a dirty victim is read from where it was, a clean
one from the RAM it agrees with. -/
theorem view_takeOut (hl : LinesInv P l) (he : EngineInv P l e ram) (hs : e.state = .victim)
    (hi : i < P.numWays) :
    view P (l.takeOut i e.set e.clean) (e.takeOut l i) ram = view P l e ram := by
  have hnot : ¬ e.Evicting := by simp [Engine.Evicting, hs]
  have hpend : ∀ L, (l.takeOut i e.set e.clean).pending L = l.pending L := fun _ => rfl
  refine view_ext fun L o ho => ?_
  have hold : uncachedWord P l e ram L o = ram (P.lineWord L o) :=
    if_neg fun h => hnot h.1
  by_cases hc : ∃ j, l.Holds P L j
  · obtain ⟨j, hj⟩ := hc
    by_cases hkeep : e.clean = true ∨ ¬ (j = i ∧ P.setOf L = e.set)
    · have hj' := holds_takeOut_of_ne hj hkeep
      rw [viewWord_of_holds (fun k hk => hl.unique (holds_takeOut hk) hj) hj',
        viewWord_of_holds (fun k hk => hl.unique hk hj) hj]
      rfl
    · -- the victim leaves the tags
      obtain ⟨hclean, rfl, hset⟩ : e.clean = false ∧ j = i ∧ P.setOf L = e.set := by
        rw [not_or, not_not] at hkeep
        exact ⟨by simpa using hkeep.1, hkeep.2⟩
      have hL := eq_evictLine he.set_lt hj hset
      have hgone : ∀ k, ¬ (l.takeOut j e.set e.clean).Holds P L k := by
        intro k hk
        obtain rfl : k = j := hl.unique (holds_takeOut hk) hj
        have hval := hk.2.1
        rw [hset, hclean] at hval
        change update2 l.valid k e.set false k e.set = true at hval
        rw [update2_self] at hval
        exact absurd hval (by simp)
      have hnone : l.pending L = none :=
        pending_eq_none.mpr fun a ha h => hl.uncached (h ▸ List.mem_map_of_mem ha) j hj
      rw [viewWord_of_not_holds hgone, viewWord_of_holds (fun k hk => hl.unique hk hj) hj, hpend,
        hnone]
      change uncachedWord P _ _ ram L o = _
      by_cases hd : l.dirty j e.set = true
      · have hev : (e.takeOut l j).Evicting ∧ (e.takeOut l j).clean = false ∧
            L = (e.takeOut l j).evictLine P :=
          ⟨takeOut_state_evicting.mpr hd, hclean, hL⟩
        rw [uncachedWord, if_pos hev, hset]
        rfl
      · have hev : ¬ ((e.takeOut l j).Evicting ∧ (e.takeOut l j).clean = false ∧
            L = (e.takeOut l j).evictLine P) := fun h => hd (takeOut_state_evicting.mp h.1)
        rw [uncachedWord, if_neg hev]
        exact (he.clean_data hj (by rw [hset]; simpa using hd) (fun h => hnot h.1) o ho).symm
  · have hnone : ∀ j, ¬ l.Holds P L j := fun j hj => hc ⟨j, hj⟩
    have hnone' : ∀ j, ¬ (l.takeOut i e.set e.clean).Holds P L j := fun j hj =>
      hnone j (holds_takeOut hj)
    rw [viewWord_of_not_holds hnone, viewWord_of_not_holds hnone', hpend, hold]
    congr 1
    refine if_neg ?_
    -- the line taken out was held, and this one was not
    rintro ⟨hev, -, rfl⟩
    have hv := hl.dirty_valid hi he.set_lt (takeOut_state_evicting.mp hev)
    exact hnone i (holds_victim hi he.set_lt hv)

end TakeOut

/-! ## Reading the victim into the buffer -/

/-- The engine after one cycle of `E_EVICT_READ`, `v` being the word in the read register. -/
def Engine.evictReadStep (P : DcacheParams) (e : Engine) (v : Word) : Engine :=
  let buf := if e.word = 0 then e.evictBuf else Function.update e.evictBuf (e.word - 1) v
  if e.word = P.words then { e with state := .evictWrite, word := 0, evictBuf := buf }
  else { e with word := e.word + 1, evictBuf := buf }

section EvictRead

variable {v : Word}

/-- EVICT_READ stays in its set. -/
theorem evictReadStep_set : (e.evictReadStep P v).set = e.set := by
  unfold Engine.evictReadStep; dsimp only; split <;> rfl

/-- EVICT_READ does not move the scan. -/
theorem evictReadStep_scanSet : (e.evictReadStep P v).scanSet = e.scanSet := by
  unfold Engine.evictReadStep; dsimp only; split <;> rfl

/-- EVICT_READ stays in its way. -/
theorem evictReadStep_way : (e.evictReadStep P v).way = e.way := by
  unfold Engine.evictReadStep; dsimp only; split <;> rfl

/-- EVICT_READ keeps the tag of the line. -/
theorem evictReadStep_tag : (e.evictReadStep P v).tag = e.tag := by
  unfold Engine.evictReadStep; dsimp only; split <;> rfl

/-- EVICT_READ keeps the reason of the eviction. -/
theorem evictReadStep_clean : (e.evictReadStep P v).clean = e.clean := by
  unfold Engine.evictReadStep; dsimp only; split <;> rfl

/-- EVICT_READ is followed by EVICT_READ or EVICT_WRITE. -/
theorem evictReadStep_evicting (hs : e.state = .evictRead) : (e.evictReadStep P v).Evicting := by
  unfold Engine.evictReadStep
  dsimp only
  split
  · exact Or.inr rfl
  · exact Or.inl hs

/-- The line being evicted stays the same. -/
theorem evictReadStep_line : (e.evictReadStep P v).evictLine P = e.evictLine P := by
  unfold Engine.evictLine
  rw [evictReadStep_set, evictReadStep_tag]

/-- The word that was read goes to the buffer, the cycle after its row was addressed. -/
theorem evictReadStep_buf : (e.evictReadStep P v).evictBuf =
    if e.word = 0 then e.evictBuf else Function.update e.evictBuf (e.word - 1) v := by
  unfold Engine.evictReadStep; dsimp only; split <;> rfl

/-- The step is the last one of the read, or it counts a word. -/
theorem evictReadStep_cases : (e.word = P.words ∧ (e.evictReadStep P v).state = .evictWrite ∧
      (e.evictReadStep P v).word = 0) ∨
    (e.word ≠ P.words ∧ (e.evictReadStep P v).state = e.state ∧
      (e.evictReadStep P v).word = e.word + 1) := by
  unfold Engine.evictReadStep
  by_cases hw : e.word = P.words
  · rw [if_pos hw]
    exact Or.inl ⟨hw, rfl, rfl⟩
  · rw [if_neg hw]
    exact Or.inr ⟨hw, rfl, rfl⟩

/-- The buffer holds the words read so far, the one in the read register included. -/
theorem evictReadStep_data (he : EngineInv P l e ram) (hs : e.state = .evictRead)
    (hd : l.dirty e.way e.set = false)
    (hv : l.dirty e.way e.set = false → 0 < e.word → v = l.data (P.row e.set (e.word - 1)) e.way)
    {o : ℕ} (ho : o < e.word) :
    (e.evictReadStep P v).evictBuf o = l.data (P.row e.set o) e.way := by
  have hpos : 0 < e.word := by omega
  rw [evictReadStep_buf, if_neg (by omega : ¬ e.word = 0)]
  by_cases hoo : o = e.word - 1
  · subst hoo
    rw [Function.update_self]
    exact hv hd hpos
  · rw [Function.update_of_ne hoo]
    exact he.read_buf hs hd o (by omega)

/-- **EVICT_READ keeps the invariant** when what it reads is the line's word. -/
theorem EngineInv.evictReadStep (he : EngineInv P l e ram) (hs : e.state = .evictRead)
    (hv : l.dirty e.way e.set = false → 0 < e.word →
      v = l.data (P.row e.set (e.word - 1)) e.way) :
    EngineInv P l (e.evictReadStep P v) ram := by
  have hev : e.Evicting := Or.inl hs
  have hword := he.read_word hs
  have hnofill : (e.evictReadStep P v).state ≠ .fill := by
    rcases evictReadStep_evicting (P := P) (v := v) hs with h | h <;> rw [h] <;> simp
  constructor
  case set_lt => rw [evictReadStep_set]; exact he.set_lt
  case scan_lt => rw [evictReadStep_scanSet]; exact he.scan_lt
  case way_lt => rw [evictReadStep_way]; exact fun _ => he.way_lt (Or.inl hev)
  case head =>
    rw [evictReadStep_set]
    intro h
    exact he.head ⟨evictReadStep_clean (P := P) (v := v) ▸ h.1, Or.inr (Or.inr (Or.inl hev))⟩
  case fill_mode => exact fun h => absurd h hnofill
  case evict_tag =>
    rw [evictReadStep_set, evictReadStep_way, evictReadStep_tag]
    exact fun _ => he.evict_tag hev
  case evict_valid =>
    rw [evictReadStep_set, evictReadStep_way, evictReadStep_clean]
    exact fun _ => he.evict_valid hev
  case evict_gone =>
    rw [evictReadStep_line, evictReadStep_clean]
    exact fun _ => he.evict_gone hev
  case evict_ram => rw [evictReadStep_line]; exact fun _ => he.evict_ram hev
  case fill_invalid => exact fun h => absurd h hnofill
  case clean_data =>
    rw [evictReadStep_line]
    exact fun hh hd hne => he.clean_data hh hd fun h => hne ⟨evictReadStep_evicting hs, h.2⟩
  case read_word =>
    intro _
    rcases evictReadStep_cases (P := P) (e := e) (v := v) with ⟨-, -, hw'⟩ | ⟨hne, -, hw'⟩
    · rw [hw']
      exact Nat.zero_le _
    · rw [hw']
      omega
  case read_buf =>
    rw [evictReadStep_set, evictReadStep_way]
    intro h hd o ho
    refine evictReadStep_data he hs hd hv ?_
    rcases evictReadStep_cases (P := P) (e := e) (v := v) with ⟨-, hs', -⟩ | ⟨-, -, hw'⟩
    · rw [hs'] at h
      exact absurd h (by simp)
    · omega
  case write_word =>
    intro h
    rcases evictReadStep_cases (P := P) (e := e) (v := v) with ⟨-, -, hw'⟩ | ⟨-, hs', -⟩
    · rw [hw']
      exact P.words_pos
    · exact absurd (hs.symm.trans (hs'.symm.trans h)) (by simp)
  case write_buf =>
    -- The read ends with the last word in the read register.
    rw [evictReadStep_set, evictReadStep_way]
    intro h hd o ho
    refine evictReadStep_data he hs hd hv ?_
    rcases evictReadStep_cases (P := P) (e := e) (v := v) with ⟨hw, -, -⟩ | ⟨-, hs', -⟩
    · omega
    · exact absurd (hs.symm.trans (hs'.symm.trans h)) (by simp)
  case write_ram =>
    intro h o ho
    rcases evictReadStep_cases (P := P) (e := e) (v := v) with ⟨-, -, hw'⟩ | ⟨-, hs', -⟩
    · omega
    · exact absurd (hs.symm.trans (hs'.symm.trans h)) (by simp)
  case fill_word => exact fun h => absurd h hnofill
  case fill_data => exact fun h => absurd h hnofill

/-- EVICT_READ moves no word, as the core sees it. -/
theorem view_evictReadStep (hs : e.state = .evictRead) :
    view P l (e.evictReadStep P v) ram = view P l e ram := by
  refine view_ext fun L o _ => ?_
  have hunc : uncachedWord P l (e.evictReadStep P v) ram L o = uncachedWord P l e ram L o := by
    unfold uncachedWord
    rw [evictReadStep_clean, evictReadStep_line, evictReadStep_set, evictReadStep_way]
    have h1 : (e.evictReadStep P v).Evicting ↔ e.Evicting :=
      ⟨fun _ => Or.inl hs, fun _ => evictReadStep_evicting hs⟩
    simp only [h1]
  unfold viewWord
  rw [hunc]

end EvictRead

/-! ## Writing the buffer back -/

section EvictWrite

variable {ram' : Ram}

/-- The RAM after the write of the engine's current word, or unchanged while it waits. -/
def WritesBack (P : DcacheParams) (e : Engine) (ram ram' : Ram) : Prop :=
  ram' = ram ∨
    ram' = Function.update ram (P.lineWord (e.evictLine P) e.word) (e.evictBuf e.word)

/-- A write-back changes only the word it writes. -/
theorem writesBack_of_ne (h : WritesBack P e ram ram') {n : ℕ}
    (hn : n ≠ P.lineWord (e.evictLine P) e.word) : ram' n = ram n := by
  rcases h with rfl | rfl
  · rfl
  · exact Function.update_of_ne hn _ _

/-- The RAM write of a word of the line being evicted keeps the invariant. -/
theorem EngineInv.writeBack (he : EngineInv P l e ram) (hs : e.state = .evictWrite)
    (hw : WritesBack P e ram ram') : EngineInv P l e ram' where
  set_lt := he.set_lt
  scan_lt := he.scan_lt
  way_lt := he.way_lt
  head := he.head
  fill_mode := he.fill_mode
  evict_tag := he.evict_tag
  evict_valid := he.evict_valid
  evict_gone := he.evict_gone
  evict_ram := he.evict_ram
  fill_invalid := he.fill_invalid
  clean_data := by
    intro L i hh hd hne o ho
    -- The word written back belongs to the line that leaves, not to `L`.
    rw [writesBack_of_ne hw]
    · exact he.clean_data hh hd hne o ho
    · intro heq
      exact hne ⟨Or.inr hs, (P.lineWord_inj ho (he.write_word hs) heq).1⟩
  read_word := he.read_word
  read_buf := he.read_buf
  write_word := he.write_word
  write_buf := he.write_buf
  write_ram := by
    intro _ o ho
    have hlt := he.write_word hs
    rw [writesBack_of_ne hw]
    · exact he.write_ram hs o ho
    · intro heq
      have := (P.lineWord_inj (by omega) hlt heq).2
      omega
  fill_word := he.fill_word
  fill_data h := absurd (hs.symm.trans h) (by simp)

/-- The RAM write of a word of the line being evicted leaves the view alone: the view reads that
line elsewhere. -/
theorem view_writeBack (hl : LinesInv P l) (he : EngineInv P l e ram) (hs : e.state = .evictWrite)
    (hw : WritesBack P e ram ram') : view P l e ram' = view P l e ram := by
  have hev : e.Evicting := Or.inr hs
  refine view_ext fun L o ho => ?_
  by_cases hL : L = e.evictLine P
  · subst hL
    cases hc : e.clean with
    | true =>
      have hh := he.holds_evictLine hev hc
      rw [viewWord_of_holds (fun k hk => hl.unique hk hh) hh,
        viewWord_of_holds (fun k hk => hl.unique hk hh) hh]
    | false =>
      have hgone := he.evict_gone hev hc
      rw [viewWord_of_not_holds hgone, viewWord_of_not_holds hgone]
      unfold uncachedWord
      rw [if_pos ⟨hev, hc, rfl⟩, if_pos ⟨hev, hc, rfl⟩]
  · have hunc : uncachedWord P l e ram' L o = uncachedWord P l e ram L o := by
      unfold uncachedWord
      rw [if_neg fun h => hL h.2.2, if_neg fun h => hL h.2.2]
      exact writesBack_of_ne hw fun h => hL (P.lineWord_inj ho (he.write_word hs) h).1
    unfold viewWord
    rw [hunc]

/-- The engine after the response to the write of its current word. -/
def Engine.evictWriteStep (P : DcacheParams) (e : Engine) : Engine :=
  if e.word = P.words - 1 then
    { e with state := if e.clean then .scan else .fill, word := 0 }
  else { e with word := e.word + 1 }

/-- When the last word is written, the RAM has the whole line. -/
theorem evictWrite_done (he : EngineInv P l e ram) (hs : e.state = .evictWrite)
    (hlast : e.word = P.words - 1)
    (hcur : ram (P.lineWord (e.evictLine P) e.word) = e.evictBuf e.word)
    (hd : l.dirty e.way e.set = false) {o : ℕ} (ho : o < P.words) :
    ram (P.lineWord (e.evictLine P) o) = l.data (P.row e.set o) e.way := by
  rw [← he.write_buf hs hd o ho]
  by_cases hlt : o < e.word
  · exact he.write_ram hs o hlt
  · obtain rfl : o = e.word := by omega
    exact hcur

/-- **EVICT_WRITE keeps the invariant**: RAM holds the word that the engine steps over. -/
theorem EngineInv.evictWriteStep (hl : LinesInv P l) (he : EngineInv P l e ram)
    (hs : e.state = .evictWrite)
    (hcur : ram (P.lineWord (e.evictLine P) e.word) = e.evictBuf e.word) :
    EngineInv P l (e.evictWriteStep P) ram := by
  have hev : e.Evicting := Or.inr hs
  have hlt := he.write_word hs
  unfold Engine.evictWriteStep
  by_cases hlast : e.word = P.words - 1
  · rw [if_pos hlast]
    -- the eviction is over: a line that stayed is clean in the RAM, and the way of one that left
    -- is free to fill
    have hnot : ¬ ({ e with state := if e.clean then .scan else .fill, word := 0 } :
        Engine).Evicting := by
      unfold Engine.Evicting
      cases e.clean <;> simp
    have hclean : e.clean = true →
        ({ e with state := if e.clean then .scan else .fill, word := 0 } : Engine).state ≠
          .fill := by
      intro hc
      simp [hc]
    have hmode : ({ e with state := if e.clean then .scan else .fill, word := 0 } :
        Engine).state = .fill → e.clean = false := by
      intro h
      by_contra hc
      exact hclean (by simpa using hc) h
    exact {
      set_lt := he.set_lt
      scan_lt := he.scan_lt
      way_lt := fun _ => he.way_lt (Or.inl hev)
      head := fun h => he.head ⟨h.1, Or.inr (Or.inr (Or.inl hev))⟩
      fill_mode := hmode
      evict_tag := fun h => absurd h hnot
      evict_valid := fun h => absurd h hnot
      evict_gone := fun h => absurd h hnot
      evict_ram := fun h => absurd h hnot
      fill_invalid := fun h => (he.evict_valid hev).trans (hmode h)
      clean_data := by
        intro L i hh hd _ o ho
        by_cases hL : L = e.evictLine P
        · subst hL
          cases hc : e.clean with
          | true =>
            obtain rfl : i = e.way := hl.unique hh (he.holds_evictLine hev hc)
            rw [setOf_evictLine he.set_lt] at hd ⊢
            exact (evictWrite_done he hs hlast hcur hd ho).symm
          | false => exact absurd hh (he.evict_gone hev hc i)
        · exact he.clean_data hh hd (fun h => hL h.2) o ho
      read_word := fun h => absurd (Or.inl h) hnot
      read_buf := fun h => absurd (Or.inl h) hnot
      write_word := fun _ => P.words_pos
      write_buf := fun h => absurd (Or.inr h) hnot
      write_ram := fun h => absurd (Or.inr h) hnot
      fill_word := fun _ => P.words_pos
      fill_data := fun _ _ _ o ho => absurd ho (Nat.not_lt_zero _) }
  · rw [if_neg hlast]
    exact {
      set_lt := he.set_lt
      scan_lt := he.scan_lt
      way_lt := he.way_lt
      head := he.head
      fill_mode := he.fill_mode
      evict_tag := he.evict_tag
      evict_valid := he.evict_valid
      evict_gone := he.evict_gone
      evict_ram := he.evict_ram
      fill_invalid := he.fill_invalid
      clean_data := he.clean_data
      read_word := fun h => absurd (hs.symm.trans h) (by simp)
      read_buf := fun h => absurd (hs.symm.trans h) (by simp)
      write_word := fun _ => by
        change e.word + 1 < P.words
        omega
      write_buf := he.write_buf
      write_ram := by
        intro _ o ho
        change o < e.word + 1 at ho
        by_cases hlt : o < e.word
        · exact he.write_ram hs o hlt
        · obtain rfl : o = e.word := by omega
          exact hcur
      fill_word := fun h => absurd (hs.symm.trans h) (by simp)
      fill_data := fun h => absurd (hs.symm.trans h) (by simp) }

/-- EVICT_WRITE moves no word, as the core sees it. -/
theorem view_evictWriteStep (hl : LinesInv P l) (he : EngineInv P l e ram)
    (hs : e.state = .evictWrite)
    (hcur : ram (P.lineWord (e.evictLine P) e.word) = e.evictBuf e.word) :
    view P l (e.evictWriteStep P) ram = view P l e ram := by
  have hev : e.Evicting := Or.inr hs
  refine view_ext fun L o ho => ?_
  have hunc : uncachedWord P l (e.evictWriteStep P) ram L o = uncachedWord P l e ram L o := by
    unfold Engine.evictWriteStep
    by_cases hlast : e.word = P.words - 1
    · rw [if_pos hlast]
      unfold uncachedWord
      -- Behind the last word the line is in RAM, and no eviction stands in for it.
      rw [if_neg]
      · split
        · rename_i h
          obtain ⟨-, hc, rfl⟩ := h
          have hinv : l.dirty e.way e.set = false := by
            by_contra hd
            have hv := hl.dirty_valid (he.way_lt (Or.inl hev)) he.set_lt (by simpa using hd)
            rw [he.evict_valid hev, hc] at hv
            exact absurd hv (by simp)
          exact evictWrite_done he hs hlast hcur hinv ho
        · rfl
      · rintro ⟨h, -⟩
        unfold Engine.Evicting at h
        cases hc : e.clean <;> simp [hc] at h
    · rw [if_neg hlast]
      rfl
  unfold viewWord
  rw [hunc]

end EvictWrite

/-! ## Filling a line -/

/-- The arrays after a word lands in the way being filled. -/
def Lines.fillWord (P : DcacheParams) (l : Lines) (e : Engine) (v : Word) : Lines :=
  { l with data := update2 l.data (P.row e.set e.word) e.way v }

/-- The arrays after the last word lands: the way holds the line of the oldest MSHR, which
retires. -/
def Lines.fillDone (P : DcacheParams) (l : Lines) (e : Engine) (h : Mshr) (v : Word) (d : Bool) :
    Lines where
  data := update2 l.data (P.row e.set e.word) e.way v
  tag := update2 l.tag e.set e.way (P.tagOf h.line)
  valid := update2 l.valid e.way e.set true
  dirty := update2 l.dirty e.way e.set d
  mshr := l.mshr.tail

section Fill

variable {h : Mshr} {v : Word}

/-- A fill is for the line of the oldest MSHR. -/
theorem EngineInv.setOf_head (he : EngineInv P l e ram) (hs : e.state = .fill)
    (hh : l.mshr.head? = some h) : e.set = P.setOf h.line := by
  obtain ⟨L, hL, hset⟩ := he.head ⟨he.fill_mode hs, Or.inr (Or.inr (Or.inr hs))⟩
  rw [Lines.waiting, List.head?_map, hh] at hL
  obtain rfl := Option.some_inj.mp hL
  exact hset

/-- **A word of a fill keeps the invariant of the engine**, while more are to come. -/
theorem EngineInv.fillWord (he : EngineInv P l e ram) (hs : e.state = .fill)
    (hh : l.mshr.head? = some h)
    (hv : v = merge (h.be e.word) (h.data e.word) (ram (P.lineWord h.line e.word)))
    (hlast : e.word ≠ P.words - 1) :
    EngineInv P (l.fillWord P e v) { e with word := e.word + 1 } ram := by
  have hlt := he.fill_word hs
  have hnot : ¬ e.Evicting := by simp [Engine.Evicting, hs]
  exact {
    set_lt := he.set_lt
    scan_lt := he.scan_lt
    way_lt := he.way_lt
    head := he.head
    fill_mode := he.fill_mode
    evict_tag := fun h => absurd h hnot
    evict_valid := fun h => absurd h hnot
    evict_gone := fun h => absurd h hnot
    evict_ram := fun h => absurd h hnot
    fill_invalid := he.fill_invalid
    clean_data := by
      intro L i hi hd hne o ho
      rw [← he.clean_data hi hd (fun h => hnot h.1) o ho]
      -- The way that is filled holds no line yet.
      refine update2_row v hlt ho fun hx => ?_
      exact he.not_filling_of_holds hs hi ⟨hx.2.1, hx.1⟩
    read_word := fun h => absurd (hs.symm.trans h) (by simp)
    read_buf := fun h => absurd (hs.symm.trans h) (by simp)
    write_word := fun h => absurd (hs.symm.trans h) (by simp)
    write_buf := fun h => absurd (hs.symm.trans h) (by simp)
    write_ram := fun h => absurd (hs.symm.trans h) (by simp)
    fill_word := fun _ => by
      change e.word + 1 < P.words
      omega
    fill_data := by
      intro _ h' hh' o ho
      change o < e.word + 1 at ho
      obtain rfl : h = h' := Option.some_inj.mp (hh.symm.trans hh')
      change update2 l.data (P.row e.set e.word) e.way v (P.row e.set o) e.way = _
      -- The word of this step, or one from before.
      by_cases hoo : o = e.word
      · subst hoo
        rw [update2_self, hv]
      · rw [update2_row v hlt (by omega) (fun h => hoo h.2.2)]
        exact he.fill_data hs hh o (by omega) }

/-- A word of a fill touches neither tags nor MSHRs. -/
theorem LinesInv.fillWord (hl : LinesInv P l) : LinesInv P (l.fillWord P e v) :=
  ⟨hl.unique, hl.dirty_valid, hl.nodup, hl.uncached, hl.count, hl.ram_holds, hl.ram_waiting⟩

/-- **A fill word leaves the view alone**: nothing reads the way being filled. -/
theorem view_fillWord (hl : LinesInv P l) (he : EngineInv P l e ram) (hs : e.state = .fill) :
    view P (l.fillWord P e v) { e with word := e.word + 1 } ram = view P l e ram := by
  have hlt := he.fill_word hs
  have hnot : ¬ e.Evicting := by simp [Engine.Evicting, hs]
  refine view_ext fun L o ho => ?_
  by_cases hc : ∃ i, l.Holds P L i
  · obtain ⟨i, hi⟩ := hc
    rw [viewWord_of_holds (fun k hk => hl.unique hk hi) hi,
      viewWord_of_holds (l := l.fillWord P e v)
        (fun k hk => hl.unique (show l.Holds P L k from hk) hi) hi]
    refine update2_row v hlt ho fun hx => ?_
    exact he.not_filling_of_holds hs hi ⟨hx.2.1, hx.1⟩
  · have hnone : ∀ i, ¬ l.Holds P L i := fun i hi => hc ⟨i, hi⟩
    rw [viewWord_of_not_holds hnone, viewWord_of_not_holds (l := l.fillWord P e v) hnone]
    change overlay (l.pending L) o _ = _
    congr 1
    unfold uncachedWord
    rw [if_neg fun h => hnot h.1, if_neg fun h => hnot h.1]

variable {d : Bool}

/-- A line that a way holds after the fill is the filled one, or was held before. -/
theorem of_holds_fillDone (hset : e.set = P.setOf h.line) {L i : ℕ}
    (hi : (l.fillDone P e h v d).Holds P L i) :
    (L = h.line ∧ i = e.way) ∨ l.Holds P L i := by
  obtain ⟨hlt, hv, ht⟩ := hi
  change update2 l.valid e.way e.set true i (P.setOf L) = true at hv
  change update2 l.tag e.set e.way (P.tagOf h.line) (P.setOf L) i = P.tagOf L at ht
  by_cases hix : i = e.way ∧ P.setOf L = e.set
  · obtain ⟨rfl, hsL⟩ := hix
    rw [hsL, update2_self] at ht
    left
    exact ⟨by rw [← P.line_tagOf_setOf L, ← P.line_tagOf_setOf h.line, ht, hsL, hset], rfl⟩
  · rw [update2_of_ne _ _ hix] at hv
    rw [update2_of_ne _ _ fun hx => hix ⟨hx.2, hx.1⟩] at ht
    exact Or.inr ⟨hlt, hv, ht⟩

/-- What the ways hold after the fill: the filled way its line, the others what they held. -/
theorem holds_fillDone (he : EngineInv P l e ram) (hs : e.state = .fill)
    (hh : l.mshr.head? = some h) {L i : ℕ} :
    (l.fillDone P e h v d).Holds P L i ↔ (L = h.line ∧ i = e.way) ∨ l.Holds P L i := by
  have hset := he.setOf_head hs hh
  refine ⟨of_holds_fillDone hset, ?_⟩
  rintro (⟨rfl, rfl⟩ | hold)
  · refine ⟨he.way_lt (Or.inr hs), ?_, ?_⟩
    · rw [← hset]
      exact update2_self _ _ _ _
    · rw [← hset]
      exact update2_self _ _ _ _
  · -- the way that is filled held nothing
    have hne := he.not_filling_of_holds hs hold
    obtain ⟨hlt, hv, ht⟩ := hold
    refine ⟨hlt, ?_, ?_⟩
    · change update2 l.valid e.way e.set true i (P.setOf L) = true
      rwa [update2_of_ne _ _ hne]
    · change update2 l.tag e.set e.way (P.tagOf h.line) (P.setOf L) i = P.tagOf L
      rwa [update2_of_ne _ _ fun hx => hne ⟨hx.2, hx.1⟩]

/-- The MSHR file behind the oldest entry. -/
theorem mshr_eq_cons (hh : l.mshr.head? = some h) : l.mshr = h :: l.mshr.tail := by
  cases hm : l.mshr with
  | nil => simp [hm] at hh
  | cons a t =>
    rw [hm] at hh
    rw [Option.some_inj.mp hh]
    rfl

/-- The line that is filled was the first to wait. -/
theorem waiting_eq_cons (hh : l.mshr.head? = some h) :
    l.waiting = h.line :: (l.fillDone P e h v d).waiting := by
  unfold Lines.waiting
  conv_lhs => rw [mshr_eq_cons hh]
  rfl

/-- **The end of a fill keeps the invariant of the lines**: the line waits no longer, and is in. -/
theorem LinesInv.fillDone (hl : LinesInv P l) (hset : e.set = P.setOf h.line)
    (hh : l.mshr.head? = some h) : LinesInv P (l.fillDone P e h v d) := by
  have hholds : ∀ {L i}, (l.fillDone P e h v d).Holds P L i →
      (L = h.line ∧ i = e.way) ∨ l.Holds P L i := of_holds_fillDone hset
  have hcons := waiting_eq_cons (P := P) (e := e) (v := v) (d := d) hh
  have hnodup := hl.nodup
  rw [hcons, List.nodup_cons] at hnodup
  have hmem : h.line ∈ l.waiting := hcons ▸ List.mem_cons_self
  have htail : ∀ {L}, L ∈ (l.fillDone P e h v d).waiting → L ∈ l.waiting := fun hL =>
    hcons ▸ List.mem_cons_of_mem _ hL
  exact {
    unique := by
      intro L i j hi hj
      -- The filled line was waiting, so no other way holds it.
      rcases hholds hi with ⟨rfl, rfl⟩ | hi <;> rcases hholds hj with ⟨hjL, rfl⟩ | hj
      · rfl
      · exact absurd hj (hl.uncached hmem j)
      · exact absurd (hjL ▸ hi) (hl.uncached hmem i)
      · exact hl.unique hi hj
    dirty_valid := by
      intro i s hi hs hd
      change update2 l.dirty e.way e.set d i s = true at hd
      change update2 l.valid e.way e.set true i s = true
      by_cases his : i = e.way ∧ s = e.set
      · obtain ⟨rfl, rfl⟩ := his
        exact update2_self _ _ _ _
      · rw [update2_of_ne _ _ his] at hd ⊢
        exact hl.dirty_valid hi hs hd
    nodup := hnodup.2
    uncached := by
      intro L hL i hi
      rcases hholds hi with ⟨rfl, -⟩ | hi
      · exact hnodup.1 hL
      · exact hl.uncached (htail hL) i hi
    count := by
      have := hl.count
      change l.mshr.tail.length ≤ _
      rw [List.length_tail]
      omega
    ram_holds := by
      intro L i hi
      rcases hholds hi with ⟨rfl, -⟩ | hi
      · exact hl.ram_waiting hmem
      · exact hl.ram_holds hi
    ram_waiting := fun hL => hl.ram_waiting (htail hL) }

/-- **The filled way has the words of the view**: the RAM's, with the MSHR's bytes over them. -/
theorem data_fillDone (he : EngineInv P l e ram) (hs : e.state = .fill)
    (hh : l.mshr.head? = some h) (hlast : e.word = P.words - 1)
    (hv : v = merge (h.be e.word) (h.data e.word) (ram (P.lineWord h.line e.word)))
    {o : ℕ} (ho : o < P.words) :
    (l.fillDone P e h v d).data (P.row e.set o) e.way =
      merge (h.be o) (h.data o) (ram (P.lineWord h.line o)) := by
  have hlt := he.fill_word hs
  change update2 l.data (P.row e.set e.word) e.way v (P.row e.set o) e.way = _
  by_cases hoo : o = e.word
  · subst hoo
    rw [update2_self, hv]
  · rw [update2_row v hlt ho (fun hx => hoo hx.2.2)]
    exact he.fill_data hs hh o (by omega)

/-- **The end of a fill keeps the invariant of the engine.** -/
theorem EngineInv.fillDone (he : EngineInv P l e ram) (hs : e.state = .fill)
    (hh : l.mshr.head? = some h) (hlast : e.word = P.words - 1)
    (hv : v = merge (h.be e.word) (h.data e.word) (ram (P.lineWord h.line e.word)))
    (hd : d = false → ∀ o < P.words, h.be o = 0#4) (w : ℕ) :
    EngineInv P (l.fillDone P e h v d) { e with state := .idle, word := w } ram := by
  have hlt := he.fill_word hs
  have hnot : ¬ e.Evicting := by simp [Engine.Evicting, hs]
  have hnot' : ¬ ({ e with state := .idle, word := w } : Engine).Evicting := by
    simp [Engine.Evicting]
  have hset := he.setOf_head hs hh
  exact {
    set_lt := he.set_lt
    scan_lt := he.scan_lt
    way_lt := fun hx => absurd hx (by simp [Engine.Evicting])
    head := fun hx => absurd hx (by simp [Engine.Serving, Engine.Evicting])
    fill_mode := fun hx => absurd hx (by simp)
    evict_tag := fun hx => absurd hx hnot'
    evict_valid := fun hx => absurd hx hnot'
    evict_gone := fun hx => absurd hx hnot'
    evict_ram := fun hx => absurd hx hnot'
    fill_invalid := fun hx => absurd hx (by simp)
    clean_data := by
      intro L i hi hdirty _ o ho
      change update2 l.dirty e.way e.set d i (P.setOf L) = false at hdirty
      rcases (holds_fillDone he hs hh).mp hi with ⟨rfl, rfl⟩ | hold
      · -- the filled line is clean only if no store bytes waited for it
        rw [← hset, update2_self] at hdirty
        rw [← hset, data_fillDone he hs hh hlast hv ho, hd hdirty o ho, merge_zero]
      · -- Any other line keeps its way, and with it its words.
        have hne := he.not_filling_of_holds hs hold
        rw [update2_of_ne _ _ hne] at hdirty
        rw [← he.clean_data hold hdirty (fun hx => hnot hx.1) o ho]
        exact update2_row v hlt ho fun hx => hne ⟨hx.2.1, hx.1⟩
    read_word := fun hx => absurd hx (by simp)
    read_buf := fun hx => absurd hx (by simp)
    write_word := fun hx => absurd hx (by simp)
    write_buf := fun hx => absurd hx (by simp)
    write_ram := fun hx => absurd hx (by simp)
    fill_word := fun hx => absurd hx (by simp)
    fill_data := fun hx => absurd hx (by simp) }

/-- **The end of a fill leaves the view alone**: the line is now read from its way, where the
MSHR's bytes are part of the words. -/
theorem view_fillDone (hl : LinesInv P l) (he : EngineInv P l e ram) (hs : e.state = .fill)
    (hh : l.mshr.head? = some h) (hlast : e.word = P.words - 1)
    (hv : v = merge (h.be e.word) (h.data e.word) (ram (P.lineWord h.line e.word))) (w : ℕ) :
    view P (l.fillDone P e h v d) { e with state := .idle, word := w } ram = view P l e ram := by
  have hlt := he.fill_word hs
  have hnot : ¬ e.Evicting := by simp [Engine.Evicting, hs]
  have hl' : LinesInv P (l.fillDone P e h v d) := hl.fillDone (he.setOf_head hs hh) hh
  have hmem : h ∈ l.mshr := List.mem_of_mem_head? hh
  have hset := he.setOf_head hs hh
  have hunc : ∀ L o, uncachedWord P l e ram L o = ram (P.lineWord L o) := fun L o =>
    if_neg fun hx => hnot hx.1
  refine view_ext fun L o ho => ?_
  by_cases hL : L = h.line
  · subst hL
    -- The filled line: the array now holds what the MSHR laid over RAM.
    have hi : (l.fillDone P e h v d).Holds P h.line e.way :=
      (holds_fillDone he hs hh).mpr (Or.inl ⟨rfl, rfl⟩)
    rw [viewWord_of_holds (fun k hk => hl'.unique hk hi) hi,
      viewWord_of_not_holds (hl.uncached (List.mem_map_of_mem hmem)),
      pending_eq_some hl.nodup hmem, hunc, ← hset]
    exact data_fillDone he hs hh hlast hv ho
  · by_cases hc : ∃ i, l.Holds P L i
    · -- A line that another way holds.
      obtain ⟨i, hi⟩ := hc
      have hi' : (l.fillDone P e h v d).Holds P L i :=
        (holds_fillDone he hs hh).mpr (Or.inr hi)
      rw [viewWord_of_holds (fun k hk => hl'.unique hk hi') hi',
        viewWord_of_holds (fun k hk => hl.unique hk hi) hi]
      refine update2_row v hlt ho fun hx => ?_
      exact he.not_filling_of_holds hs hi ⟨hx.2.1, hx.1⟩
    · -- A line in no way keeps its MSHR, if it has one.
      have hnone : ∀ i, ¬ l.Holds P L i := fun i hi => hc ⟨i, hi⟩
      have hnone' : ∀ i, ¬ (l.fillDone P e h v d).Holds P L i := by
        intro i hi
        rcases (holds_fillDone he hs hh).mp hi with ⟨rfl, -⟩ | hi
        · exact hL rfl
        · exact hnone i hi
      have hpend : (l.fillDone P e h v d).pending L = l.pending L := by
        unfold Lines.pending
        conv_rhs => rw [mshr_eq_cons hh]
        have hb : (h.line == L) = false := by simpa using fun hx => hL hx.symm
        rw [List.find?_cons, hb]
        rfl
      rw [viewWord_of_not_holds hnone, viewWord_of_not_holds hnone', hpend, hunc]
      congr 1

end Fill

end Synapse32
