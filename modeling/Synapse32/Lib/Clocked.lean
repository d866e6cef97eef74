import Mathlib.Tactic

/-! # Runs of a synchronous machine

A machine with a next-state function, driven by one input a cycle. `run` lists the states it goes
through, `Reachable` names them, and a property that one clock edge preserves holds all along. -/

namespace Clocked

variable {σ ι : Type*} (next : σ → ι → σ) (init : σ)

/-- The state before cycle `n` of the run that `ins` drives. -/
def run (ins : ℕ → ι) : ℕ → σ
  | 0 => init
  | n + 1 => next (run ins n) (ins n)

/-- Before the first cycle. -/
@[simp] theorem run_zero (ins : ℕ → ι) : run next init ins 0 = init := rfl

/-- One more cycle. -/
theorem run_succ (ins : ℕ → ι) (n : ℕ) :
    run next init ins (n + 1) = next (run next init ins n) (ins n) := rfl

/-- A run goes on from any of its states. -/
theorem run_add (ins : ℕ → ι) (n k : ℕ) :
    run next init ins (n + k) = run next (run next init ins n) (fun j => ins (n + j)) k := by
  induction k with
  | zero => rfl
  | succ k ih => rw [← Nat.add_assoc, run_succ, ih, run_succ]

variable {next init}

/-- **Invariant rule.** A property of the first state that every edge of the run preserves holds
before every cycle. -/
theorem run_invariant {P : σ → Prop} {ins : ℕ → ι} (h0 : P init)
    (hstep : ∀ n, P (run next init ins n) → P (next (run next init ins n) (ins n))) (n : ℕ) :
    P (run next init ins n) := by
  induction n with
  | zero => exact h0
  | succ n ih => exact hstep n ih

/-! ## Progress -/

/-- **Ranking rule.** If every cycle before the goal lowers the rank, or waits for help without
raising it, and whoever waits is helped in the end, then the goal is reached. -/
theorem eventually_of_rank {β : Type*} [Preorder β] [WellFoundedLT β] (rank : ℕ → β)
    (waits helped : ℕ → Prop) {goal : ℕ → Prop} {n0 : ℕ}
    (hstep : ∀ n ≥ n0, ¬ goal n →
      rank (n + 1) < rank n ∨ (waits n ∧ ¬ helped n ∧ rank (n + 1) ≤ rank n))
    (hhelp : ∀ n ≥ n0, waits n → ∃ m ≥ n, helped m) : ∃ n ≥ n0, goal n := by
  by_contra hnone
  have hnot : ∀ n ≥ n0, ¬ goal n := fun n hn hg => hnone ⟨n, hn, hg⟩
  have hle : ∀ n ≥ n0, rank (n + 1) ≤ rank n := fun n hn =>
    (hstep n hn (hnot n hn)).elim le_of_lt fun h => h.2.2
  have hdrop : ∀ n ≥ n0, ∃ m ≥ n0, rank m < rank n := by
    intro n hn
    rcases hstep n hn (hnot n hn) with hlt | ⟨hw, -, -⟩
    · exact ⟨n + 1, by omega, hlt⟩
    · obtain ⟨m, hm, hh⟩ := hhelp n hn hw
      have hmn : rank m ≤ rank n := by
        clear hh
        induction m, hm using Nat.le_induction with
        | base => exact le_rfl
        | succ k hk ih => exact (hle k (by omega)).trans ih
      rcases hstep m (by omega) (hnot m (by omega)) with hlt | ⟨-, hno, -⟩
      · exact ⟨m + 1, by omega, hlt.trans_le hmn⟩
      · exact absurd hh hno
  -- a lowest rank would be lowered once more
  obtain ⟨b, ⟨n, hn, rfl⟩, hmin⟩ := wellFounded_lt.has_min {b | ∃ n ≥ n0, rank n = b}
    ⟨rank n0, n0, le_rfl, rfl⟩
  obtain ⟨m, hm, hlt⟩ := hdrop n hn
  exact hmin (rank m) ⟨m, hm, rfl⟩ hlt

/-! ## Conservation -/

variable {α : Type*}

/-- What the first `n` cycles of a run put out, in order. -/
def log (next : σ → ι → σ) (init : σ) (ins : ℕ → ι) (out : σ → ι → List α) (n : ℕ) : List α :=
  (List.range n).flatMap fun m => out (run next init ins m) (ins m)

/-- Nothing is logged before the first cycle. -/
@[simp] theorem log_zero (ins : ℕ → ι) (out : σ → ι → List α) : log next init ins out 0 = [] := rfl

/-- One more cycle of a log. -/
theorem log_succ (ins : ℕ → ι) (out : σ → ι → List α) (n : ℕ) :
    log next init ins out (n + 1) =
      log next init ins out n ++ out (run next init ins n) (ins n) := by
  simp [log, List.range_succ]

/-- **Conservation rule.** If every edge of a run hands on, in order, what the state held and what
came in, as what goes out and what the state holds then, so does the run. -/
theorem log_conserved (ins : ℕ → ι) (held : σ → List α) (inp out : σ → ι → List α) (n : ℕ)
    (hstep : ∀ m < n, held (run next init ins m) ++ inp (run next init ins m) (ins m) =
      out (run next init ins m) (ins m) ++ held (run next init ins (m + 1))) :
    held init ++ log next init ins inp n =
      log next init ins out n ++ held (run next init ins n) := by
  induction n with
  | zero => simp
  | succ n ih =>
    rw [log_succ, log_succ, ← List.append_assoc, ih fun m hm => hstep m (by omega),
      List.append_assoc, hstep n (by omega), List.append_assoc]

/-! ## Conservation with discards -/

/-- What the first `n` cycles of a run put in, less what was still held in a cycle that discards
it. -/
def kept (next : σ → ι → σ) (init : σ) (ins : ℕ → ι) (inp out : σ → ι → List α)
    (discards : σ → ι → Bool) : ℕ → List α
  | 0 => []
  | n + 1 =>
    if discards (run next init ins n) (ins n) then
      (kept next init ins inp out discards n).take (log next init ins out (n + 1)).length
    else kept next init ins inp out discards n ++ inp (run next init ins n) (ins n)

/-- **Conservation rule, with discards.** If a cycle hands on what the state held and what came in,
and one that discards leaves nothing held but what it puts out itself, then what a run has put out,
and behind it what it holds, is what it has kept. -/
theorem log_append_held (ins : ℕ → ι) (held : σ → List α) (inp out : σ → ι → List α)
    (discards : σ → ι → Bool) (n : ℕ) (h0 : held init = [])
    (hkeep : ∀ m < n, discards (run next init ins m) (ins m) = false →
      held (run next init ins m) ++ inp (run next init ins m) (ins m) =
        out (run next init ins m) (ins m) ++ held (run next init ins (m + 1)))
    (hdiscard : ∀ m < n, discards (run next init ins m) (ins m) = true →
      out (run next init ins m) (ins m) <+: held (run next init ins m) ∧
        held (run next init ins (m + 1)) = []) :
    log next init ins out n ++ held (run next init ins n) =
      kept next init ins inp out discards n := by
  induction n with
  | zero => simpa [kept] using h0
  | succ n ih =>
    have ih := ih (fun m hm => hkeep m (by omega)) (fun m hm => hdiscard m (by omega))
    rw [kept, ← ih]
    cases hd : discards (run next init ins n) (ins n)
    · rw [if_neg Bool.false_ne_true, log_succ, List.append_assoc, List.append_assoc,
        hkeep n (by omega) hd]
    · obtain ⟨⟨rest, hrest⟩, hempty⟩ := hdiscard n (by omega) hd
      rw [if_pos rfl, hempty, List.append_nil, ← hrest, ← List.append_assoc, ← log_succ,
        List.take_left]

end Clocked
