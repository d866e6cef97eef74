import Mathlib.Tactic

/-! # Byte lanes of a 32-bit word

A word is four byte lanes, a write replaces the lanes its byte enables select, and a memory of
words is a little-endian memory of bytes. -/

namespace ByteLanes

/-! ## Lanes -/

/-- Lane `k` of a word. -/
def byte (w : BitVec 32) (k : ℕ) : BitVec 8 := w.extractLsb' (8 * k) 8

/-- The bits of a byte lane. -/
theorem getLsbD_byte (w : BitVec 32) (k i : ℕ) :
    (byte w k).getLsbD i = (decide (i < 8) && w.getLsbD (8 * k + i)) :=
  BitVec.getLsbD_extractLsb' _ _ _ _

/-- Two words with the same four lanes are equal. -/
theorem ext_byte {a b : BitVec 32} (h : ∀ k < 4, byte a k = byte b k) : a = b := by
  refine BitVec.eq_of_getLsbD_eq fun i hi => ?_
  have hb := congrArg (fun c => BitVec.getLsbD c (i % 8)) (h (i / 8) (by omega))
  simpa only [getLsbD_byte, Nat.mod_lt i (by omega : 0 < 8), decide_true, Bool.true_and,
    Nat.div_add_mod] using hb

/-- The word with four given lanes. -/
def ofBytes (b : ℕ → BitVec 8) : BitVec 32 := b 3 ++ (b 2 ++ (b 1 ++ b 0 : BitVec 16) : BitVec 24)

/-- The bytes of a word put together. -/
theorem byte_ofBytes (b : ℕ → BitVec 8) {k : ℕ} (hk : k < 4) : byte (ofBytes b) k = b k := by
  refine BitVec.eq_of_getLsbD_eq fun i hi => ?_
  rw [getLsbD_byte, ofBytes]
  simp only [hi, decide_true, Bool.true_and, BitVec.getLsbD_append]
  obtain rfl | rfl | rfl | rfl : k = 0 ∨ k = 1 ∨ k = 2 ∨ k = 3 := by omega
  · simp [hi, show i < 16 by omega, show i < 24 by omega]
  · simp [show ¬ 8 + i < 8 by omega, show 8 + i < 16 by omega, show 8 + i < 24 by omega]
  · simp [show ¬ 16 + i < 16 by omega, show 16 + i < 24 by omega]
  · simp [show ¬ 24 + i < 24 by omega]

/-! ## Merging -/

/-- **Replace the selected lanes** of `old` by those of `new`. -/
def merge (be : BitVec 4) (new old : BitVec 32) : BitVec 32 :=
  ofBytes fun k => if be.getLsbD k then byte new k else byte old k

/-- A merged word takes each byte from the new or the old one. -/
theorem byte_merge (be : BitVec 4) (new old : BitVec 32) {k : ℕ} (hk : k < 4) :
    byte (merge be new old) k = if be.getLsbD k then byte new k else byte old k :=
  byte_ofBytes _ hk

/-- Without enables the old word stays. -/
@[simp] theorem merge_zero (new old : BitVec 32) : merge 0#4 new old = old :=
  ext_byte fun k hk => by simp [byte_merge _ _ _ hk]

/-- Enabling every lane replaces the word. -/
@[simp] theorem merge_allOnes (new old : BitVec 32) : merge 0b1111#4 new old = new := by
  refine ext_byte fun k hk => ?_
  have hall : (0b1111#4).getLsbD k = true := by
    obtain rfl | rfl | rfl | rfl : k = 0 ∨ k = 1 ∨ k = 2 ∨ k = 3 := by omega
    all_goals rfl
  rw [byte_merge _ _ _ hk, if_pos hall]

/-- **Two merges are one**: the later one wins where both select. -/
theorem merge_merge (be₂ be₁ : BitVec 4) (new₂ new₁ old : BitVec 32) :
    merge be₂ new₂ (merge be₁ new₁ old) = merge (be₁ ||| be₂) (merge be₂ new₂ new₁) old := by
  refine ext_byte fun k hk => ?_
  simp only [byte_merge _ _ _ hk, BitVec.getLsbD_or]
  cases be₂.getLsbD k <;> cases be₁.getLsbD k <;> simp

/-! ## A memory of words as a memory of bytes -/

/-- The bytes of a memory of words, little-endian. -/
def bytes (mem : ℕ → BitVec 32) : ℕ → BitVec 8 := fun a => byte (mem (a / 4)) (a % 4)

/-- **Store** the selected bytes of `data` from address `a` on. -/
def store (m : ℕ → BitVec 8) (a : ℕ) (be : BitVec 4) (data : BitVec 32) : ℕ → BitVec 8 :=
  fun x => if a ≤ x ∧ x < a + 4 ∧ be.getLsbD (x - a) = true then byte data (x - a) else m x

/-- The halfword at `a`. -/
def loadHalf (m : ℕ → BitVec 8) (a : ℕ) : BitVec 16 := m (a + 1) ++ m a

/-- The word at `a`. -/
def loadWord (m : ℕ → BitVec 8) (a : ℕ) : BitVec 32 := ofBytes fun k => m (a + k)

/-- The selected bytes, counted from address `a`, stay inside the word of `a`. -/
def FitsWord (a : ℕ) (be : BitVec 4) : Prop := ∀ k < 4, be.getLsbD k = true → a % 4 + k < 4

/-- A store that fits its word leaves the other words alone. -/
theorem store_of_ne_word {m : ℕ → BitVec 8} {a : ℕ} {be : BitVec 4} (data : BitVec 32)
    (hfit : FitsWord a be) {x : ℕ} (hx : x / 4 ≠ a / 4) : store m a be data x = m x := by
  unfold store
  refine if_neg ?_
  rintro ⟨h1, h2, h3⟩
  have hk := hfit (x - a) (by omega) h3
  omega

/-- The lanes of a shifted word. -/
theorem byte_shiftLeft (w : BitVec 32) (n : ℕ) {k : ℕ} (hk : k < 4) :
    byte (w <<< (8 * n)) k = if n ≤ k then byte w (k - n) else 0#8 := by
  refine BitVec.eq_of_getLsbD_eq fun i hi => ?_
  rw [getLsbD_byte, BitVec.getLsbD_shiftLeft]
  by_cases hn : n ≤ k
  · rw [if_pos hn, getLsbD_byte]
    have hle : ¬ 8 * k + i < 8 * n := by omega
    have hidx : 8 * k + i - 8 * n = 8 * (k - n) + i := by omega
    have hlt : 8 * k + i < 32 := by omega
    simp [hi, hle, hidx, hlt]
  · rw [if_neg hn]
    have hlt : 8 * k + i < 8 * n := by omega
    simp [hlt]

/-- **A lane merge in the word of `a` is a byte store at `a`.** -/
theorem bytes_update_merge (mem : ℕ → BitVec 32) (a : ℕ) (be : BitVec 4) (data : BitVec 32)
    (hfit : FitsWord a be) :
    bytes (Function.update mem (a / 4)
      (merge (be <<< (a % 4)) (data <<< (8 * (a % 4))) (mem (a / 4)))) =
      store (bytes mem) a be data := by
  funext x
  have hoff : a % 4 < 4 := Nat.mod_lt _ (by omega)
  have hx4 : x % 4 < 4 := Nat.mod_lt _ (by omega)
  by_cases hw : x / 4 = a / 4
  · unfold bytes store
    rw [hw, Function.update_self, byte_merge _ _ _ hx4, BitVec.getLsbD_shiftLeft,
      byte_shiftLeft _ _ hx4]
    by_cases hle : a ≤ x
    · have hsub : x % 4 - a % 4 = x - a := by omega
      have h1 : ¬ x % 4 < a % 4 := by omega
      have h2 : a % 4 ≤ x % 4 := by omega
      have h3 : x < a + 4 := by omega
      simp only [h1, h2, hx4, hle, h3, decide_true, decide_false, Bool.not_false, Bool.true_and,
        true_and, if_true, hsub, hw]
    · have h1 : x % 4 < a % 4 := by omega
      simp [h1, hle, hw]
  · unfold bytes
    rw [Function.update_of_ne hw]
    exact (store_of_ne_word (m := bytes mem) data hfit hw).symm

/-- The word of an aligned address. -/
theorem loadWord_bytes (mem : ℕ → BitVec 32) {a : ℕ} (ha : a % 4 = 0) :
    loadWord (bytes mem) a = mem (a / 4) := by
  refine ext_byte fun k hk => ?_
  rw [loadWord, byte_ofBytes _ hk, bytes]
  congr 2 <;> omega

/-- A slice of a word shifted down by lanes. -/
theorem extractLsb'_ushiftRight (w : BitVec 32) (n len : ℕ) :
    (w >>> (8 * n)).extractLsb' 0 len = w.extractLsb' (8 * n) len :=
  BitVec.eq_of_getLsbD_eq fun i hi => by simp [hi]

/-- Two neighbouring lanes of a word. -/
theorem extractLsb'_half (w : BitVec 32) (n : ℕ) :
    w.extractLsb' (8 * n) 16 = byte w (n + 1) ++ byte w n := by
  refine BitVec.eq_of_getLsbD_eq fun i hi => ?_
  rw [BitVec.getLsbD_append, BitVec.getLsbD_extractLsb', getLsbD_byte, getLsbD_byte]
  by_cases h8 : i < 8
  · simp [h8, hi]
  · have hidx : 8 * (n + 1) + (i - 8) = 8 * n + i := by omega
    simp [h8, hi, hidx, show i - 8 < 8 by omega]

/-- The halfword of an aligned address. -/
theorem loadHalf_bytes (mem : ℕ → BitVec 32) {a : ℕ} (ha : a % 2 = 0) :
    loadHalf (bytes mem) a = (mem (a / 4)).extractLsb' (8 * (a % 4)) 16 := by
  have hdiv : (a + 1) / 4 = a / 4 := by omega
  have hmod : (a + 1) % 4 = a % 4 + 1 := by omega
  rw [extractLsb'_half, loadHalf, bytes, bytes, hdiv, hmod]

/-! ## Two words at once -/

/-- A lane of two words, `hi` above `lo`. -/
theorem extractLsb'_append_byte (hi lo : BitVec 32) {k : ℕ} (hk : k < 8) :
    (hi ++ lo).extractLsb' (8 * k) 8 = if k < 4 then byte lo k else byte hi (k - 4) := by
  apply BitVec.eq_of_getLsbD_eq
  intro i hi8
  rw [BitVec.getLsbD_extractLsb', BitVec.getLsbD_append]
  by_cases h4 : k < 4
  · rw [if_pos h4, getLsbD_byte]
    simp [hi8, show 8 * k + i < 32 by omega]
  · rw [if_neg h4, getLsbD_byte, show 8 * (k - 4) + i = 8 * k + i - 32 by omega]
    simp [hi8, show ¬ 8 * k + i < 32 by omega]

/-- Two neighbouring lanes of two words. -/
theorem extractLsb'_pair (d : BitVec 64) (k : ℕ) :
    d.extractLsb' (8 * k) 16 = d.extractLsb' (8 * (k + 1)) 8 ++ d.extractLsb' (8 * k) 8 := by
  apply BitVec.eq_of_getLsbD_eq
  intro i hi
  rw [BitVec.getLsbD_append, BitVec.getLsbD_extractLsb', BitVec.getLsbD_extractLsb',
    BitVec.getLsbD_extractLsb']
  by_cases h8 : i < 8
  · simp [h8, hi]
  · simp [h8, hi, show 8 * (k + 1) + (i - 8) = 8 * k + i by omega, show i - 8 < 8 by omega]

/-- Four neighbouring lanes of two words. -/
theorem extractLsb'_quad (d : BitVec 64) (k : ℕ) :
    d.extractLsb' (8 * k) 32 = ofBytes fun j => d.extractLsb' (8 * (k + j)) 8 := by
  apply ext_byte
  intro j hj
  rw [byte_ofBytes _ hj]
  apply BitVec.eq_of_getLsbD_eq
  intro i hi
  rw [getLsbD_byte, BitVec.getLsbD_extractLsb', BitVec.getLsbD_extractLsb',
    show 8 * k + (8 * j + i) = 8 * (k + j) + i by omega]
  simp [hi, show 8 * j + i < 32 by omega]

end ByteLanes
