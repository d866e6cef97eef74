import Mathlib.Tactic

/-! # Overwriting rings

A memory of `n` cells that is written in turn, each write over the oldest: it holds the last `n`
elements of a log. -/

namespace RecentRing

variable {α : Type*} {blank : α → Prop} {n p : ℕ} {cell : ℕ → α} {log : List α}

/-- The cell written `i + 1` writes ago, where cell `p` is written next. -/
def back (n p i : ℕ) : ℕ := (p + n - 1 - i) % n

/-- The cells hold the first `n` elements of `log`, the newest in front; the others are blank. -/
def HoldsLast (blank : α → Prop) (n p : ℕ) (cell : ℕ → α) (log : List α) : Prop :=
  ∀ i < n, (∀ a, log[i]? = some a → cell (back n p i) = a) ∧
    (log[i]? = none → blank (cell (back n p i)))

/-- The places behind the pointer are places of the ring. -/
theorem back_lt (h : 0 < n) (i : ℕ) : back n p i < n := Nat.mod_lt _ h

/-- Going back as far as the distance of a cell finds it. -/
theorem exists_back (hp : p < n) {j : ℕ} (hj : j < n) : ∃ i < n, back n p i = j := by
  rcases Nat.lt_or_ge j p with hlt | hge
  · refine ⟨p - 1 - j, by omega, ?_⟩
    rw [back, show p + n - 1 - (p - 1 - j) = j + n by omega, Nat.add_mod_right, Nat.mod_eq_of_lt hj]
  · refine ⟨p + n - 1 - j, by omega, ?_⟩
    rw [back, show p + n - 1 - (p + n - 1 - j) = j by omega, Nat.mod_eq_of_lt hj]

/-- A ring of blank cells holds nothing. -/
theorem holdsLast_nil (h0 : 0 < n) (h : ∀ j < n, blank (cell j)) : HoldsLast blank n p cell [] := by
  intro i _
  exact ⟨fun a ha => by simp at ha, fun _ => h _ (back_lt h0 i)⟩

/-- The next cell, and the cells before it, after a write. -/
theorem back_succ (hp : p < n) {i : ℕ} (hi : i < n) :
    back n (if p = n - 1 then 0 else p + 1) i = if i = 0 then p else back n p (i - 1) := by
  unfold back
  by_cases hlast : p = n - 1
  · rw [if_pos hlast]
    by_cases h0 : i = 0
    · rw [if_pos h0, Nat.mod_eq_of_lt (by omega)]
      omega
    · rw [if_neg h0, show p + n - 1 - (i - 1) = (0 + n - 1 - i) + n by omega, Nat.add_mod_right]
  · rw [if_neg hlast]
    by_cases h0 : i = 0
    · rw [if_pos h0, show p + 1 + n - 1 - i = p + n by omega, Nat.add_mod_right,
        Nat.mod_eq_of_lt hp]
    · rw [if_neg h0, show p + 1 + n - 1 - i = p + n - 1 - (i - 1) by omega]

/-- Only the place furthest behind is the one written next. -/
theorem back_ne (hp : p < n) {i : ℕ} (hi : i + 1 < n) : back n p i ≠ p := by
  unfold back
  rcases Nat.lt_or_ge i p with hlt | hge
  · rw [show p + n - 1 - i = (p - 1 - i) + n by omega, Nat.add_mod_right,
      Nat.mod_eq_of_lt (by omega)]
    omega
  · rw [Nat.mod_eq_of_lt (by omega)]
    omega

/-- **A write** puts its element in front of the log, over the cell that leaves the last `n`. -/
theorem HoldsLast.write (h : HoldsLast blank n p cell log) (hp : p < n) (a : α) :
    HoldsLast blank n (if p = n - 1 then 0 else p + 1) (Function.update cell p a) (a :: log) := by
  intro i hi
  rw [back_succ hp hi]
  by_cases h0 : i = 0
  · subst h0
    rw [if_pos rfl, Function.update_self]
    exact ⟨fun b hb => by simpa using hb, fun hb => by simp at hb⟩
  · obtain ⟨k, rfl⟩ := Nat.exists_eq_succ_of_ne_zero h0
    rw [if_neg h0, Nat.succ_sub_one, Function.update_of_ne (back_ne hp hi), Nat.succ_eq_add_one,
      List.getElem?_cons_succ]
    exact h k (by omega)

/-- **What the cells show** is what the last `n` elements show. -/
theorem HoldsLast.exists_iff (h : HoldsLast blank n p cell log) (hp : p < n) {q : α → Prop}
    (hq : ∀ a, blank a → ¬ q a) : (∃ j < n, q (cell j)) ↔ ∃ a ∈ log.take n, q a := by
  constructor
  · rintro ⟨j, hj, hqj⟩
    obtain ⟨i, hi, rfl⟩ := exists_back hp hj
    cases hlog : log[i]? with
    | none => exact absurd hqj (hq _ ((h i hi).2 hlog))
    | some a =>
      rw [(h i hi).1 a hlog] at hqj
      refine ⟨a, List.mem_iff_getElem?.mpr ⟨i, ?_⟩, hqj⟩
      rw [List.getElem?_take, if_pos hi, hlog]
  · rintro ⟨a, ha, hqa⟩
    obtain ⟨i, hi⟩ := List.mem_iff_getElem?.mp ha
    rw [List.getElem?_take] at hi
    split at hi
    · rename_i hlt
      refine ⟨back n p i, back_lt (by omega) i, ?_⟩
      rwa [(h i hlt).1 a hi]
    · cases hi

end RecentRing
