import Mathlib.Data.List.MinMax
import Mathlib.Tactic

/-! # Scanning for the greatest key

A loop over a list that carries the best element so far and its key, starting from a floor: it ends
with the element of greatest key above the floor, the first on a tie. Taking the winner away and
scanning again lists the candidates by decreasing key. -/

namespace Scan

variable {α β : Type*} [LinearOrder β]

/-- Take the next element if it qualifies and beats what the scan carries. -/
def step (ok : α → Bool) (key : α → β) (best : Option α × β) (a : α) : Option α × β :=
  if ok a && decide (best.2 < key a) then (some a, key a) else best

/-- The element a scan ends with. -/
def greatest (ok : α → Bool) (key : α → β) (floor : β) (l : List α) : Option α :=
  (l.foldl (step ok key) (none, floor)).1

/-- The elements that may win. -/
def candidates (ok : α → Bool) (key : α → β) (floor : β) (l : List α) : List α :=
  l.filter fun a => ok a && decide (floor < key a)

variable {ok : α → Bool} {key : α → β} {floor : β} {l : List α} {a : α}

/-- The candidates are the elements that qualify. -/
theorem mem_candidates :
    a ∈ candidates ok key floor l ↔ a ∈ l ∧ ok a = true ∧ floor < key a := by
  simp [candidates]

/-- **What a scan carries**: the first candidate of greatest key, and that key. -/
theorem foldl_step (ok : α → Bool) (key : α → β) (floor : β) (l : List α) :
    l.foldl (step ok key) (none, floor) =
      ((candidates ok key floor l).argmax key,
        ((candidates ok key floor l).argmax key).elim floor key) := by
  induction l using List.reverseRecOn with
  | nil => rfl
  | append_singleton l a ih =>
    have hsplit : candidates ok key floor (l ++ [a]) =
        candidates ok key floor l ++ if ok a && decide (floor < key a) then [a] else [] := by
      simp [candidates, List.filter_append, List.filter_singleton]
    rw [List.foldl_append, ih, hsplit]
    change step ok key _ a = _
    unfold step
    cases hok : ok a
    · simp
    cases hm : (candidates ok key floor l).argmax key with
    | none =>
      by_cases hf : floor < key a
      · simp [List.argmax_concat, hm, hf]
      · simp [hm, hf]
    | some c =>
      -- A winner is above the floor, so what does not pass the floor does not beat it.
      have hc : floor < key c := (mem_candidates.mp (List.argmax_mem hm)).2.2
      by_cases hf : floor < key a
      · by_cases hlt : key c < key a
        · simp [List.argmax_concat, hm, hf, hlt]
        · simp [List.argmax_concat, hm, hf, hlt]
      · have hlt : ¬ key c < key a := fun h => hf (hc.trans h)
        simp [hm, hf, hlt]

/-- **The scan finds the first greatest candidate.** -/
theorem greatest_eq_argmax :
    greatest ok key floor l = (candidates ok key floor l).argmax key := by
  rw [greatest, foldl_step]

/-- **The scan finds nothing** exactly when there is no candidate. -/
theorem greatest_eq_none_iff :
    greatest ok key floor l = none ↔ ∀ a ∈ l, ¬ (ok a = true ∧ floor < key a) := by
  rw [greatest_eq_argmax, List.argmax_eq_none, List.eq_nil_iff_forall_not_mem]
  simp only [mem_candidates, not_and]

/-! ## Ascending lists -/

variable [LinearOrder α]

/-- `a` comes before `b`: it has the greater key, or the same key and it is the smaller. -/
def Before (key : α → β) (a b : α) : Prop := key b < key a ∨ key b = key a ∧ a < b

/-- In an ascending list the first is the least. -/
theorem idxOf_le_idxOf_iff (h : l.Pairwise (· < ·)) {a b : α} (ha : a ∈ l) (hb : b ∈ l) :
    l.idxOf a ≤ l.idxOf b ↔ a ≤ b := by
  have hat : ∀ {x y : α}, x ∈ l → y ∈ l → l.idxOf x < l.idxOf y → x < y := by
    intro x y hx hy hlt
    have hlen := List.idxOf_lt_length_of_mem hy
    have hp := List.pairwise_iff_getElem.mp h _ _ (hlt.trans hlen) hlen hlt
    rwa [List.getElem_idxOf, List.getElem_idxOf] at hp
  constructor
  · intro hle
    rcases hle.lt_or_eq with hlt | heq
    · exact (hat ha hb hlt).le
    · exact ((List.idxOf_inj ha).mp heq).le
  · intro hle
    by_contra hlt
    exact absurd hle (not_le.mpr (hat hb ha (not_le.mp hlt)))

/-- **The winner of an ascending scan** is the candidate that comes before all others. -/
theorem greatest_eq_some_iff (h : l.Pairwise (· < ·)) :
    greatest ok key floor l = some a ↔
      (a ∈ l ∧ ok a = true ∧ floor < key a) ∧
        ∀ b ∈ l, ok b = true → floor < key b → b = a ∨ Before key a b := by
  have hc : (candidates ok key floor l).Pairwise (· < ·) := h.filter _
  rw [greatest_eq_argmax, List.argmax_eq_some_iff, mem_candidates]
  constructor
  · rintro ⟨ha, hmax, hfirst⟩
    refine ⟨ha, fun b hb hok hf => ?_⟩
    have hbc : b ∈ candidates ok key floor l := mem_candidates.mpr ⟨hb, hok, hf⟩
    -- Another candidate has a smaller key, or the same one further on.
    rcases (hmax b hbc).lt_or_eq with hlt | heq
    · exact .inr (.inl hlt)
    · have hle := (idxOf_le_idxOf_iff hc (mem_candidates.mpr ha) hbc).mp (hfirst b hbc heq.ge)
      rcases hle.eq_or_lt with rfl | hlt
      · exact .inl rfl
      · exact .inr (.inr ⟨heq, hlt⟩)
  · rintro ⟨ha, hbest⟩
    refine ⟨ha, fun b hb => ?_, fun b hb hle => ?_⟩
    · obtain ⟨hbl, hok, hf⟩ := mem_candidates.mp hb
      rcases hbest b hbl hok hf with rfl | hlt | ⟨heq, -⟩
      · exact le_rfl
      · exact hlt.le
      · exact heq.le
    · obtain ⟨hbl, hok, hf⟩ := mem_candidates.mp hb
      rw [idxOf_le_idxOf_iff hc (mem_candidates.mpr ha) hb]
      rcases hbest b hbl hok hf with rfl | hlt | ⟨-, hab⟩
      · exact le_rfl
      · exact absurd hle (not_le.mpr hlt)
      · exact hab.le

/-! ## Ranked lists -/

/-- **A ranking**: each element comes before all that follow it. -/
def Ranked (key : α → β) (l : List α) : Prop := l.Pairwise (Before key)

/-- No element comes before itself, so a ranking lists each once. -/
theorem Ranked.nodup {l : List α} (h : Ranked key l) : l.Nodup := by
  refine h.imp fun {a b} hab => ?_
  rintro rfl
  rcases hab with hlt | ⟨-, hlt⟩ <;> exact lt_irrefl _ hlt

/-- Every finite set has a ranking. -/
theorem exists_ranked (key : α → β) (s : Finset α) : ∃ l, Ranked key l ∧ ∀ a, a ∈ l ↔ a ∈ s := by
  induction s using Finset.induction_on_max_value fun a => toLex (key a, OrderDual.toDual a) with
  | empty => exact ⟨[], List.Pairwise.nil, by simp⟩
  | insert a s ha hmax ih =>
    obtain ⟨l, hl, hmem⟩ := ih
    refine ⟨a :: l, List.pairwise_cons.mpr ⟨fun b hb => ?_, hl⟩, fun b => by simp [hmem]⟩
    rcases Prod.Lex.toLex_le_toLex.mp (hmax b ((hmem b).mp hb)) with hlt | ⟨heq, hle⟩
    · exact .inl hlt
    · have hne : a ≠ b := fun h => ha (h ▸ (hmem b).mp hb)
      exact .inr ⟨heq, lt_of_le_of_ne (OrderDual.toDual_le_toDual.mp hle) hne⟩

/-- **A scan whose candidates are those of a ranking finds its head.** -/
theorem greatest_of_ranked (h : l.Pairwise (· < ·)) {r : List α} (hr : Ranked key r)
    (hmem : ∀ b, b ∈ r ↔ b ∈ l ∧ ok b = true ∧ floor < key b) :
    greatest ok key floor l = r.head? := by
  cases r with
  | nil =>
    refine greatest_eq_none_iff.mpr fun a ha hc => ?_
    exact absurd ((hmem a).mpr ⟨ha, hc⟩) List.not_mem_nil
  | cons a r =>
    refine (greatest_eq_some_iff h).mpr ⟨(hmem a).mp List.mem_cons_self, fun b hb hok hf => ?_⟩
    rcases List.mem_cons.mp ((hmem b).mpr ⟨hb, hok, hf⟩) with rfl | hbr
    · exact .inl rfl
    · exact .inr ((List.pairwise_cons.mp hr).1 b hbr)

end Scan
