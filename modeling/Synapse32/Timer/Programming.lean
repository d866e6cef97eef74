import Synapse32.Lib.Clocked
import Synapse32.Rtl.Timer

/-! # Programming the timer

`mtime` counts cycles, and the interrupt compares it with `mtimecmp`, in both of which software sees
one word at a time. This file shows that the usual sequences of accesses are exact: three writes
that set `mtimecmp` without an interrupt on the way, and three reads that read `mtime` whole. -/

namespace Synapse32

namespace Timer

variable {ins : ℕ → TimerIn} {s : Timer} {i : TimerIn}

/-- The registers before cycle `n`, from reset. -/
def run (ins : ℕ → TimerIn) (n : ℕ) : Timer := Clocked.run next reset ins n

/-- One more cycle. -/
theorem run_succ (ins : ℕ → TimerIn) (n : ℕ) : run ins (n + 1) = next (run ins n) (ins n) := rfl

/-! ## Words -/

/-- Two words put together, as a number. -/
theorem toNat_append (h l : Word) : (h ++ l : BitVec 64).toNat = h.toNat * 2 ^ 32 + l.toNat := by
  rw [BitVec.toNat_append, ← Nat.shiftLeft_add_eq_or_of_lt l.isLt, Nat.shiftLeft_eq]

/-- The lower of two words put together. -/
@[simp] theorem lowWord_append (h l : Word) : lowWord (h ++ l) = l :=
  BitVec.extractLsb'_append_eq_right

/-- The upper of two words put together. -/
@[simp] theorem highWord_append (h l : Word) : highWord (h ++ l) = h :=
  BitVec.extractLsb'_append_eq_left

/-- A doubleword as a number, from its words. -/
theorem toNat_words (x : BitVec 64) :
    x.toNat = (highWord x).toNat * 2 ^ 32 + (lowWord x).toNat := by
  have hx := x.isLt
  rw [highWord, lowWord, BitVec.extractLsb'_toNat, BitVec.extractLsb'_toNat,
    Nat.shiftRight_eq_div_pow, Nat.shiftRight_zero]
  omega

/-- A doubleword is its words put together. -/
theorem append_words (x : BitVec 64) : highWord x ++ lowWord x = x := by
  apply BitVec.eq_of_toNat_eq
  rw [toNat_append, ← toNat_words]

/-- All ones in the high word are above every time that has not come near the end. -/
theorem lt_ones_append {x : BitVec 64} (l : Word) (h : x < 0xFFFFFFFF00000000#64) :
    x < 0xFFFFFFFF#32 ++ l := by
  rw [BitVec.lt_def] at h ⊢
  rw [toNat_append]
  exact h.trans_le (Nat.le_add_right _ _)

/-! ## One write -/

/-- A write is to one register. -/
theorem writes_unique {a b : Word} (h : writes i a = true) (hne : a ≠ b) : writes i b = false := by
  rw [writes, Bool.and_eq_true, beq_iff_eq] at h
  rw [writes, h.2, beq_false_of_ne hne, Bool.and_false]

/-- The cycle writes neither word of `mtime`. -/
def KeepsMtime (i : TimerIn) : Prop := writes i mtimeLo = false ∧ writes i mtimeHi = false

/-- Whether a cycle keeps `mtime` can be decided. -/
instance (i : TimerIn) : Decidable (KeepsMtime i) :=
  inferInstanceAs (Decidable (writes i mtimeLo = false ∧ writes i mtimeHi = false))

/-- The cycle writes neither word of `mtimecmp`. -/
def KeepsMtimecmp (i : TimerIn) : Prop := writes i mtimecmpLo = false ∧ writes i mtimecmpHi = false

/-- Whether a cycle keeps `mtimecmp` can be decided. -/
instance (i : TimerIn) : Decidable (KeepsMtimecmp i) :=
  inferInstanceAs (Decidable (writes i mtimecmpLo = false ∧ writes i mtimecmpHi = false))

/-- `mtime` counts when it is not written. -/
theorem next_mtime (h : KeepsMtime i) : (next s i).mtime = s.mtime + 1 := by
  simp [next, h.1, h.2]

/-- `mtimecmp` stays when it is not written. -/
theorem next_mtimecmp (h : KeepsMtimecmp i) : (next s i).mtimecmp = s.mtimecmp := by
  simp [next, h.1, h.2]

/-- A write of the lower word keeps the upper one. -/
theorem next_mtimecmp_of_lo (h : writes i mtimecmpLo = true) :
    (next s i).mtimecmp = highWord s.mtimecmp ++ i.writeData := by
  simp [next, h, setLowWord]

/-- A write of the upper word keeps the lower one. -/
theorem next_mtimecmp_of_hi (h : writes i mtimecmpHi = true) :
    (next s i).mtimecmp = i.writeData ++ lowWord s.mtimecmp := by
  simp [next, h, writes_unique h (b := mtimecmpLo) (by decide), setHighWord]

/-! ## Stretches of a run -/

/-- **`mtime` counts the cycles** in which it is not written. -/
theorem mtime_of_kept {a : ℕ} {n : ℕ} (hn : a ≤ n) (h : ∀ c, a ≤ c → c < n → KeepsMtime (ins c)) :
    (run ins n).mtime = (run ins a).mtime + BitVec.ofNat 64 (n - a) := by
  induction n, hn using Nat.le_induction with
  | base => simp
  | succ n hn ih =>
    rw [run_succ, next_mtime (h n hn (Nat.lt_succ_self n)), ih fun c h1 h2 => h c h1 (by omega),
      show n + 1 - a = (n - a) + 1 by omega, BitVec.ofNat_add, BitVec.add_assoc]
    rfl

/-- Before it wraps around, as a number. -/
theorem mtime_toNat {a n : ℕ} (hn : a ≤ n) (h : ∀ c, a ≤ c → c < n → KeepsMtime (ins c))
    (hw : (run ins a).mtime.toNat + (n - a) < 2 ^ 64) :
    (run ins n).mtime.toNat = (run ins a).mtime.toNat + (n - a) := by
  rw [mtime_of_kept hn h, BitVec.toNat_add, BitVec.toNat_ofNat, Nat.add_mod_mod,
    Nat.mod_eq_of_lt hw]

/-! ## Setting `mtimecmp` -/

/-- **The three writes that set `mtimecmp`** to `t`: all ones to the high word in cycle `a`, then
the low word in cycle `b`, then the high word in cycle `c`; no other write to it comes from `a` up
to cycle `e`. -/
structure Programs (ins : ℕ → TimerIn) (t : BitVec 64) (a b c e : ℕ) : Prop where
  lt_low : a < b
  lt_high : b < c
  lt_end : c < e
  ones : writes (ins a) mtimecmpHi = true ∧ (ins a).writeData = 0xFFFFFFFF#32
  low : writes (ins b) mtimecmpLo = true ∧ (ins b).writeData = lowWord t
  high : writes (ins c) mtimecmpHi = true ∧ (ins c).writeData = highWord t
  others : ∀ n, a < n → n < e → n ≠ b → n ≠ c → KeepsMtimecmp (ins n)

section Programs

variable {t : BitVec 64} {a b c e : ℕ} (h : Programs ins t a b c e)
include h

/-- Before the last write the high word is all ones. -/
theorem Programs.mtimecmp_between {n : ℕ} (han : a < n) (hnc : n ≤ c) :
    highWord (run ins n).mtimecmp = 0xFFFFFFFF#32 ∧
      (b < n → lowWord (run ins n).mtimecmp = lowWord t) := by
  have hlow := h.lt_low
  have hhigh := h.lt_high
  have hend := h.lt_end
  induction n, han using Nat.le_induction with
  | base =>
    rw [run_succ, next_mtimecmp_of_hi h.ones.1, h.ones.2, highWord_append]
    exact ⟨rfl, fun hb => absurd hb (by omega)⟩
  | succ n han ih =>
    have han : a < n := han
    obtain ⟨ihh, ihl⟩ := ih (by omega)
    rw [run_succ]
    by_cases hnb : n = b
    · subst hnb
      rw [next_mtimecmp_of_lo h.low.1, h.low.2, highWord_append, lowWord_append]
      exact ⟨ihh, fun _ => rfl⟩
    · rw [next_mtimecmp (h.others n han (by omega) hnb (by omega))]
      exact ⟨ihh, fun hb => ihl (by omega)⟩

/-- After it `mtimecmp` is what was written. -/
theorem Programs.mtimecmp_after {n : ℕ} (hcn : c < n) (hne : n ≤ e) :
    (run ins n).mtimecmp = t := by
  have hlow := h.lt_low
  have hhigh := h.lt_high
  induction n, hcn using Nat.le_induction with
  | base =>
    have hl := (h.mtimecmp_between (n := c) (by omega) le_rfl).2 hhigh
    rw [run_succ, next_mtimecmp_of_hi h.high.1, h.high.2, hl, append_words]
  | succ n hcn ih =>
    have hcn : c < n := hcn
    rw [run_succ, next_mtimecmp (h.others n (by omega) (by omega) (by omega) (by omega))]
    exact ih (by omega)

/-- **Setting `mtimecmp` is exact.** However many cycles lie between the three writes, the interrupt
is down from the first to the last of them, unless `mtime` is within `2 ^ 32` cycles of its end; and
after the last it is up exactly when `mtime` has reached `t`, which is in the very cycle that the
count foretells. -/
theorem mtimecmp_exact :
    (∀ n, a < n → n ≤ c → (run ins n).mtime < 0xFFFFFFFF00000000#64 →
      timerInterrupt (run ins n) = false) ∧
    (∀ n, c < n → n ≤ e → (timerInterrupt (run ins n) = true ↔ t ≤ (run ins n).mtime)) ∧
    ∀ n, c < n → n ≤ e → (∀ j, c < j → j < n → KeepsMtime (ins j)) →
      (run ins (c + 1)).mtime.toNat + (n - (c + 1)) < 2 ^ 64 →
      (timerInterrupt (run ins n) = true ↔
        t.toNat ≤ (run ins (c + 1)).mtime.toNat + (n - (c + 1))) := by
  refine ⟨fun n han hnc hlt => ?_, fun n hcn hne => ?_, fun n hcn hne hkeep hw => ?_⟩
  · have hh := (h.mtimecmp_between han hnc).1
    have hcmp := lt_ones_append (lowWord (run ins n).mtimecmp) hlt
    rw [← hh, append_words] at hcmp
    rw [timerInterrupt, decide_eq_false_iff_not, BitVec.not_le]
    exact hcmp
  · rw [timerInterrupt, decide_eq_true_iff, h.mtimecmp_after hcn hne]
  · rw [timerInterrupt, decide_eq_true_iff, h.mtimecmp_after hcn hne, BitVec.le_def,
      mtime_toNat hcn (fun j h1 h2 => hkeep j h1 h2) hw]

end Programs

/-- `mtimecmp` set to 20 in cycles 3, 7 and 12. -/
def setTo20 (n : ℕ) : TimerIn :=
  if n = 3 then ⟨mtimecmpHi, 0xFFFFFFFF#32, true, false⟩
  else if n = 7 then ⟨mtimecmpLo, 20#32, true, false⟩
  else if n = 12 then ⟨mtimecmpHi, 0#32, true, false⟩
  else ⟨0#32, 0#32, false, false⟩

/-- The timer asks for its interrupt in cycle 20, and not in the cycle before. -/
theorem mtimecmp_exact_setTo20 :
    timerInterrupt (run setTo20 19) = false ∧ timerInterrupt (run setTo20 20) = true := by
  have h : Programs setTo20 20#64 3 7 12 1000 := by
    refine ⟨by decide, by decide, by decide, by decide, by decide, by decide, ?_⟩
    intro j h3 _ h7 h12
    rw [setTo20, if_neg (by omega), if_neg h7, if_neg h12]
    decide
  have hkeep : ∀ j, KeepsMtime (setTo20 j) := by
    intro j
    unfold setTo20
    split
    · decide
    · split
      · decide
      · split <;> decide
  have h13 : (run setTo20 13).mtime.toNat = 13 := by
    have hkeep' : ∀ j, 0 ≤ j → j < 13 → KeepsMtime (setTo20 j) := fun j _ _ => hkeep j
    rw [mtime_toNat (Nat.zero_le 13) hkeep' (by decide)]
    rfl
  have h19 := (mtimecmp_exact h).2.2 19 (by decide) (by decide) (fun j _ _ => hkeep j)
    (by rw [h13]; decide)
  have h20 := (mtimecmp_exact h).2.2 20 (by decide) (by decide) (fun j _ _ => hkeep j)
    (by rw [h13]; decide)
  rw [h13] at h19 h20
  exact ⟨Bool.eq_false_of_not_eq_true fun hi => absurd (h19.mp hi) (by decide), h20.mpr (by decide)⟩

/-! ## Reading `mtime` -/

/-- The cycle reads the register at `addr`. -/
def reads (i : TimerIn) (addr : Word) : Prop := i.readEnable = true ∧ i.addr = addr

/-- Whether a cycle reads a register can be decided. -/
instance (i : TimerIn) (addr : Word) : Decidable (reads i addr) :=
  inferInstanceAs (Decidable (i.readEnable = true ∧ i.addr = addr))

/-- A read of the upper word. -/
theorem readData_mtimeHi (h : reads i mtimeHi) : readData s i = highWord s.mtime := by
  obtain ⟨hen, haddr⟩ := h
  rw [readData, timerValid, hen, haddr]
  rfl

/-- A read of the lower word. -/
theorem readData_mtimeLo (h : reads i mtimeLo) : readData s i = lowWord s.mtime := by
  obtain ⟨hen, haddr⟩ := h
  rw [readData, timerValid, hen, haddr]
  rfl

/-- **Reading `mtime` is exact.** The high word, the low word and the high word once more, the last
at most 2^64 - 2^32 cycles behind the first: where both high words agree, with the low word they are
`mtime` of the cycle in between, and so neither torn by a carry nor by a wrap-around. -/
theorem mtime_read_exact {a b c : ℕ} (hab : a < b) (hbc : b < c) (ha : reads (ins a) mtimeHi)
    (hb : reads (ins b) mtimeLo) (hc : reads (ins c) mtimeHi)
    (hkeep : ∀ j, a ≤ j → j < c → KeepsMtime (ins j)) (hlen : c - a ≤ 2 ^ 64 - 2 ^ 32)
    (heq : readData (run ins a) (ins a) = readData (run ins c) (ins c)) :
    readData (run ins a) (ins a) ++ readData (run ins b) (ins b) = (run ins b).mtime := by
  rw [readData_mtimeHi ha, readData_mtimeHi hc] at heq
  rw [readData_mtimeHi ha, readData_mtimeLo hb]
  have hb' := mtime_of_kept hab.le fun j h1 h2 => hkeep j h1 (by omega)
  have hc' := mtime_of_kept (hab.trans hbc).le hkeep
  -- The high word is the same at both ends, so it is in between.
  have hhigh : highWord (run ins a).mtime = highWord (run ins b).mtime := by
    have hn := congrArg BitVec.toNat heq
    have hnb := congrArg BitVec.toNat hb'
    have hnc := congrArg BitVec.toNat hc'
    rw [BitVec.toNat_add, BitVec.toNat_ofNat, Nat.add_mod_mod] at hnb hnc
    have hx := (run ins a).mtime.isLt
    apply BitVec.eq_of_toNat_eq
    rw [highWord, highWord, BitVec.extractLsb'_toNat, BitVec.extractLsb'_toNat,
      Nat.shiftRight_eq_div_pow, Nat.shiftRight_eq_div_pow] at hn ⊢
    omega
  rw [hhigh, append_words]

/-- `mtime` set two cycles before a carry, and then read in each cycle from 4 on. -/
def readAfterCarry (n : ℕ) : TimerIn :=
  if n = 0 then ⟨mtimeLo, 0xFFFFFFFE#32, true, false⟩
  else if n % 2 = 0 then ⟨mtimeHi, 0#32, false, true⟩
  else ⟨mtimeLo, 0#32, false, true⟩

/-- A read that is repeated across the carry. -/
theorem mtime_read_exact_afterCarry :
    readData (run readAfterCarry 4) (readAfterCarry 4) ++
      readData (run readAfterCarry 5) (readAfterCarry 5) = (run readAfterCarry 5).mtime := by
  have hkeep : ∀ j, 4 ≤ j → j < 6 → KeepsMtime (readAfterCarry j) := by
    intro j h1 h2
    interval_cases j <;> decide
  exact mtime_read_exact (by decide) (by decide) (by decide) (by decide) (by decide) hkeep
    (by decide) (by decide)

end Timer

end Synapse32
