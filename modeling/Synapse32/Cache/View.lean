import Synapse32.Rtl.Dcache

/-! # The memory a cache stands for

The abstract view of the data cache: for each line, its cached copy, else the copy being evicted,
else the RAM, with the store bytes that wait in an MSHR laid over the last two. -/

namespace Synapse32

open ByteLanes

/-! ## Lines, rows and words -/

namespace DcacheParams

variable (P : DcacheParams)

/-- A line has a word. -/
theorem words_pos : 0 < P.words := Nat.two_pow_pos _

/-- A way has a set. -/
theorem sets_pos : 0 < P.sets := Nat.two_pow_pos _

/-- Every line has its set. -/
theorem setOf_lt (L : ℕ) : P.setOf L < P.sets := Nat.mod_lt _ P.sets_pos

/-- Every address has its word of the line. -/
theorem wordOf_lt (a : Word) : P.wordOf a < P.words := Nat.mod_lt _ P.words_pos

/-- A line that is put together lies in its set. -/
@[simp] theorem setOf_line {set : ℕ} (tag : ℕ) (h : set < P.sets) :
    P.setOf (P.line tag set) = set := by
  unfold setOf line
  rw [Nat.mul_comm, Nat.mul_add_mod, Nat.mod_eq_of_lt h]

/-- A line that is put together has its tag. -/
@[simp] theorem tagOf_line {set : ℕ} (tag : ℕ) (h : set < P.sets) :
    P.tagOf (P.line tag set) = tag := by
  unfold tagOf line
  rw [Nat.mul_comm, Nat.mul_add_div P.sets_pos, Nat.div_eq_of_lt h, Nat.add_zero]

/-- Tag and set make up the line. -/
theorem line_tagOf_setOf (L : ℕ) : P.line (P.tagOf L) (P.setOf L) = L := by
  unfold line tagOf setOf
  rw [Nat.mul_comm]
  exact Nat.div_add_mod L P.sets

/-- A line is its tag and its set. -/
theorem eq_line_iff {L tag set : ℕ} (h : set < P.sets) :
    L = P.line tag set ↔ P.setOf L = set ∧ P.tagOf L = tag := by
  constructor
  · rintro rfl
    exact ⟨P.setOf_line tag h, P.tagOf_line tag h⟩
  · rintro ⟨rfl, rfl⟩
    exact (P.line_tagOf_setOf L).symm

/-- A row of the data array determines set and word. -/
theorem row_inj {s s' o o' : ℕ} (ho : o < P.words) (ho' : o' < P.words)
    (h : P.row s o = P.row s' o') : s = s' ∧ o = o' := by
  unfold row at h
  have hs := congrArg (· / P.words) h
  have hm := congrArg (· % P.words) h
  simp only [Nat.mul_comm _ P.words, Nat.mul_add_div P.words_pos, Nat.div_eq_of_lt ho,
    Nat.div_eq_of_lt ho', Nat.add_zero] at hs
  simp only [Nat.mul_comm _ P.words, Nat.mul_add_mod, Nat.mod_eq_of_lt ho,
    Nat.mod_eq_of_lt ho'] at hm
  exact ⟨hs, hm⟩

/-- The set of a row. -/
theorem row_div {s o : ℕ} (ho : o < P.words) : P.row s o / P.words = s := by
  unfold row
  rw [Nat.mul_comm, Nat.mul_add_div P.words_pos, Nat.div_eq_of_lt ho, Nat.add_zero]

/-- A word of RAM determines line and place. -/
theorem lineWord_inj {L L' o o' : ℕ} (ho : o < P.words) (ho' : o' < P.words)
    (h : P.lineWord L o = P.lineWord L' o') : L = L' ∧ o = o' :=
  P.row_inj ho ho' h

/-- The row of an address is that of its set and word. -/
theorem index_eq (a : Word) : P.index a = P.row (P.setOf (P.lineOf a)) (P.wordOf a) := by
  unfold index row setOf lineOf wordOf
  rw [Nat.mul_comm P.sets, Nat.mod_mul]
  ring

/-- The word address of an address is that of its line and word. -/
theorem lineWord_lineOf (a : Word) : P.lineWord (P.lineOf a) (P.wordOf a) = wordAddr a := by
  unfold lineWord lineOf wordOf
  rw [Nat.mul_comm]
  exact Nat.div_add_mod _ _

/-- The line of a word of RAM. -/
theorem lineWord_div {L o : ℕ} (ho : o < P.words) : P.lineWord L o / P.words = L := P.row_div ho

/-- The place of a word in its line. -/
theorem lineWord_mod {L o : ℕ} (ho : o < P.words) : P.lineWord L o % P.words = o := by
  unfold lineWord
  rw [Nat.mul_comm, Nat.mul_add_mod, Nat.mod_eq_of_lt ho]

end DcacheParams

/-! ## The view -/

/-- A memory of words, by word address. -/
abbrev Ram := ℕ → Word

variable (P : DcacheParams)

/-- Way `i` holds line `L`. -/
def Lines.Holds (l : Lines) (L i : ℕ) : Prop :=
  i < P.numWays ∧ l.valid i (P.setOf L) = true ∧ l.tag (P.setOf L) i = P.tagOf L

/-- The way that holds line `L`, if any. -/
def Lines.find (l : Lines) (L : ℕ) : Option ℕ :=
  (List.range P.numWays).find? fun i =>
    l.valid i (P.setOf L) && l.tag (P.setOf L) i == P.tagOf L

/-- The MSHR of line `L`, if any. -/
def Lines.pending (l : Lines) (L : ℕ) : Option Mshr := l.mshr.find? fun e => e.line == L

/-- The engine is moving a line out of the arrays. -/
def Engine.Evicting (e : Engine) : Prop := e.state = .evictRead ∨ e.state = .evictWrite

/-- Whether a line is being evicted can be decided. -/
instance (e : Engine) : Decidable e.Evicting :=
  inferInstanceAs (Decidable (_ ∨ _))

/-- The line the engine moves. -/
def Engine.evictLine (e : Engine) : ℕ := P.line e.tag e.set

/-- The store bytes of an MSHR over a word. -/
def overlay (p : Option Mshr) (o : ℕ) (w : Word) : Word :=
  match p with
  | some e => merge (e.be o) (e.data o) w
  | none => w

/-- What lies under the pending bytes of an uncached line: the copy being evicted, which has left
the tags but not yet the data array, or the RAM. -/
def uncachedWord (l : Lines) (e : Engine) (ram : Ram) (L o : ℕ) : Word :=
  if e.Evicting ∧ e.clean = false ∧ L = e.evictLine P then l.data (P.row e.set o) e.way
  else ram (P.lineWord L o)

/-- **The abstract word**: the valid line, else the line being evicted or the RAM overlaid with
the pending MSHR bytes. -/
def viewWord (l : Lines) (e : Engine) (ram : Ram) (L o : ℕ) : Word :=
  match l.find P L with
  | some i => l.data (P.row (P.setOf L) o) i
  | none => overlay (l.pending L) o (uncachedWord P l e ram L o)

/-- The memory of words that the cache and the RAM behind it stand for. -/
def view (l : Lines) (e : Engine) (ram : Ram) : Ram :=
  fun n => viewWord P l e ram (n / P.words) (n % P.words)

variable {P}

/-! ## Reading the view -/

/-- The way that is found holds the line. -/
theorem Lines.find_some {l : Lines} {L i : ℕ} (h : l.find P L = some i) : l.Holds P L i := by
  unfold Lines.find at h
  have hmem := List.mem_of_find?_eq_some h
  have hp := List.find?_some h
  simp only [Bool.and_eq_true, beq_iff_eq] at hp
  exact ⟨List.mem_range.mp hmem, hp.1, hp.2⟩

/-- No way is found exactly when none holds the line. -/
theorem Lines.find_none {l : Lines} {L : ℕ} : l.find P L = none ↔ ∀ i, ¬ l.Holds P L i := by
  unfold Lines.find
  rw [List.find?_eq_none]
  constructor
  · rintro h i ⟨hi, hv, ht⟩
    exact h i (List.mem_range.mpr hi) (by simp [hv, ht])
  · intro h i hi hp
    simp only [Bool.and_eq_true, beq_iff_eq] at hp
    exact h i ⟨List.mem_range.mp hi, hp.1, hp.2⟩

/-- The word of a cached line is in the way that holds it. -/
theorem viewWord_of_holds {l : Lines} {e : Engine} {ram : Ram} {L i : ℕ}
    (huniq : ∀ j, l.Holds P L j → j = i) (h : l.Holds P L i) (o : ℕ) :
    viewWord P l e ram L o = l.data (P.row (P.setOf L) o) i := by
  unfold viewWord
  cases hf : l.find P L with
  | none => exact absurd h (Lines.find_none.mp hf i)
  | some j => rw [huniq j (Lines.find_some hf)]

/-- The word of an uncached line. -/
theorem viewWord_of_not_holds {l : Lines} {e : Engine} {ram : Ram} {L : ℕ}
    (h : ∀ i, ¬ l.Holds P L i) (o : ℕ) :
    viewWord P l e ram L o = overlay (l.pending L) o (uncachedWord P l e ram L o) := by
  unfold viewWord
  rw [Lines.find_none.mpr h]

/-- The view at a word of a line. -/
theorem view_lineWord {l : Lines} {e : Engine} {ram : Ram} {L o : ℕ} (ho : o < P.words) :
    view P l e ram (P.lineWord L o) = viewWord P l e ram L o := by
  unfold view
  rw [P.lineWord_div ho, P.lineWord_mod ho]

/-- Two views agree if they agree on every word of every line. -/
theorem view_ext {l l' : Lines} {e e' : Engine} {ram ram' : Ram}
    (h : ∀ L, ∀ o < P.words, viewWord P l' e' ram' L o = viewWord P l e ram L o) :
    view P l' e' ram' = view P l e ram := by
  funext n
  exact h _ _ (Nat.mod_lt _ P.words_pos)

/-- A view that changes in one word of one line. -/
theorem view_update {l l' : Lines} {e e' : Engine} {ram ram' : Ram} {L o : ℕ} {v : Word}
    (ho : o < P.words) (hat : viewWord P l' e' ram' L o = v)
    (helse : ∀ L', ∀ o' < P.words, ¬ (L' = L ∧ o' = o) →
      viewWord P l' e' ram' L' o' = viewWord P l e ram L' o') :
    view P l' e' ram' = Function.update (view P l e ram) (P.lineWord L o) v := by
  funext n
  by_cases hn : n = P.lineWord L o
  · subst hn
    rw [Function.update_self, view_lineWord ho, hat]
  · rw [Function.update_of_ne hn]
    refine helse _ _ (Nat.mod_lt _ P.words_pos) ?_
    rintro ⟨rfl, rfl⟩
    exact hn (by unfold DcacheParams.lineWord; rw [Nat.mul_comm]; exact (Nat.div_add_mod _ _).symm)

/-! ## MSHRs -/

/-- In a file without repeated lines, the MSHR of a line is the entry with that line. -/
theorem pending_eq_some {l : Lines} (hn : (l.mshr.map Mshr.line).Nodup) {e : Mshr}
    (he : e ∈ l.mshr) : l.pending e.line = some e := by
  unfold Lines.pending
  induction hm : l.mshr generalizing l with
  | nil => simp [hm] at he
  | cons a t ih =>
    rw [hm] at hn he
    rw [List.map_cons, List.nodup_cons] at hn
    rw [List.find?_cons]
    rcases List.mem_cons.mp he with rfl | ht
    · simp
    · have hne : ¬ a.line = e.line := fun h => hn.1 (h ▸ List.mem_map_of_mem ht)
      have hb : (a.line == e.line) = false := by simpa using hne
      rw [hb]
      exact ih (l := { l with mshr := t }) hn.2 ht rfl

/-- Nothing is pending for a line that no MSHR waits for. -/
theorem pending_eq_none {l : Lines} {L : ℕ} :
    l.pending L = none ↔ ∀ e ∈ l.mshr, e.line ≠ L := by
  unfold Lines.pending
  simp [List.find?_eq_none]

/-- Updating one entry in place, its line kept, updates that line's pending bytes only. -/
theorem find?_modify_line (f : Mshr → Mshr) (hf : ∀ e, (f e).line = e.line) (L : ℕ) :
    ∀ (es : List Mshr) (j : ℕ) (e : Mshr), (es.map Mshr.line).Nodup → es[j]? = some e →
      (es.modify j f).find? (fun e => e.line == L) =
        if e.line = L then some (f e) else es.find? (fun e => e.line == L) := by
  intro es
  induction es with
  | nil => simp
  | cons a t ih =>
    intro j e hn hj
    rw [List.map_cons, List.nodup_cons] at hn
    -- The entry is the head, or it is in the tail and the head has another line.
    cases j with
    | zero =>
      obtain rfl : a = e := by simpa using hj
      rw [List.modify_zero_cons, List.find?_cons, List.find?_cons, hf]
      by_cases hL : a.line = L
      · simp [hL]
      · have hb : (a.line == L) = false := by simpa using hL
        simp [hb, hL]
    | succ j =>
      have hj' : t[j]? = some e := by simpa using hj
      have hmem : e ∈ t := List.mem_of_getElem? hj'
      rw [List.modify_succ_cons, List.find?_cons, List.find?_cons, ih j e hn.2 hj']
      by_cases hL : a.line = L
      · have hne : ¬ e.line = L := fun h => hn.1 (hL.trans h.symm ▸ List.mem_map_of_mem hmem)
        simp [hL, hne]
      · have hb : (a.line == L) = false := by simpa using hL
        simp [hb]

/-- Modifying an MSHR in place leaves the lines that wait. -/
theorem map_line_modify (f : Mshr → Mshr) (hf : ∀ e, (f e).line = e.line) (es : List Mshr)
    (j : ℕ) : (es.modify j f).map Mshr.line = es.map Mshr.line := by
  induction es generalizing j with
  | nil => simp
  | cons a t ih =>
    cases j with
    | zero => simp [hf]
    | succ j => simp [ih]

end Synapse32
