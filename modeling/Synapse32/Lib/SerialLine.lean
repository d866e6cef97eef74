import Mathlib.Tactic

/-! # 8N1 serial lines

The level of an asynchronous line over time: frames of a start bit, eight data bits, LSB first, and
a stop bit, each bit `p` cycles long, with the line high between frames. -/

namespace SerialLine

variable {p t : ℕ}

/-- Bit `k` of the frame of byte `b`; behind the stop bit the line idles. -/
def frameBit (b : BitVec 8) (k : ℕ) : Bool :=
  if k = 0 then false else if k ≤ 8 then b.getLsbD (k - 1) else true

/-- A frame begins with a low start bit. -/
@[simp] theorem frameBit_zero (b : BitVec 8) : frameBit b 0 = false := rfl

/-- The data bits follow, the lowest first. -/
theorem frameBit_data (b : BitVec 8) {k : ℕ} (h : k < 8) : frameBit b (k + 1) = b.getLsbD k := by
  rw [frameBit, if_neg (Nat.succ_ne_zero k), if_pos (by omega), Nat.add_sub_cancel]

/-- The stop bit is high, and so is the line behind it. -/
theorem frameBit_stop (b : BitVec 8) {k : ℕ} (h : 9 ≤ k) : frameBit b k = true := by
  rw [frameBit, if_neg (by omega), if_neg (by omega)]

/-- The byte whose bits are `f`, LSB first. -/
def byteOf (f : ℕ → Bool) : BitVec 8 :=
  BitVec.ofBoolListLE [f 0, f 1, f 2, f 3, f 4, f 5, f 6, f 7]

/-- The bits of a byte that is put together. -/
theorem getLsbD_byteOf (f : ℕ → Bool) {k : ℕ} (hk : k < 8) : (byteOf f).getLsbD k = f k := by
  rw [byteOf, BitVec.getLsbD_ofBoolListLE]
  interval_cases k <;> rfl

/-- The level of the line at time `t`, for frames of bits of `p` cycles, each given by the cycle in
which its start bit begins and its byte. -/
def line (p : ℕ) : List (ℕ × BitVec 8) → ℕ → Bool
  | [], _ => true
  | (a, b) :: fs, t =>
    if t < a then true else if t < a + 10 * p then frameBit b ((t - a) / p) else line p fs t

/-- The frames come in order from `t` on, none before the one ahead of it has ended. -/
def Spaced (p : ℕ) : ℕ → List (ℕ × BitVec 8) → Prop
  | _, [] => True
  | t, (a, _) :: fs => t ≤ a ∧ Spaced p (a + 10 * p) fs

/-- Frames that are spaced from a time are so from an earlier one. -/
theorem Spaced.of_le {fs : List (ℕ × BitVec 8)} {t₀ t₁ : ℕ} (hs : Spaced p t₁ fs) (h : t₀ ≤ t₁) :
    Spaced p t₀ fs := by
  cases fs with
  | nil => trivial
  | cons f fs => exact ⟨h.trans hs.1, hs.2⟩

/-- A line without frames is high. -/
@[simp] theorem line_nil (t : ℕ) : line p [] t = true := rfl

/-- Before its first frame the line is high. -/
theorem line_cons_of_lt {a : ℕ} (b : BitVec 8) (fs : List (ℕ × BitVec 8)) (h : t < a) :
    line p ((a, b) :: fs) t = true := by rw [line, if_pos h]

/-- In bit `k` of the first frame. -/
theorem line_cons_bit {a k : ℕ} (b : BitVec 8) (fs : List (ℕ × BitVec 8)) (hk : k < 10)
    (hlo : a + k * p ≤ t) (hhi : t < a + (k + 1) * p) :
    line p ((a, b) :: fs) t = frameBit b k := by
  have hp : 0 < p := by
    apply Nat.pos_of_ne_zero
    rintro rfl
    omega
  have hend : (k + 1) * p ≤ 10 * p := Nat.mul_le_mul_right p hk
  have hdiv : (t - a) / p = k := by
    apply Nat.div_eq_of_lt_le
    · omega
    · omega
  rw [line, if_neg (by omega), if_pos (by omega), hdiv]

/-- Before the time that frames are spaced from the line is high. -/
theorem line_of_lt {t₀ : ℕ} {fs : List (ℕ × BitVec 8)} (hs : Spaced p t₀ fs) (h : t < t₀) :
    line p fs t = true := by
  cases fs with
  | nil => rfl
  | cons f fs =>
    obtain ⟨a, b⟩ := f
    exact line_cons_of_lt b fs (lt_of_lt_of_le h hs.1)

/-- From the stop bit of the first frame on, the line is that of the others. -/
theorem line_cons_of_stop {a : ℕ} {b : BitVec 8} {fs : List (ℕ × BitVec 8)}
    (hs : Spaced p (a + 10 * p) fs) (h : a + 9 * p ≤ t) :
    line p ((a, b) :: fs) t = line p fs t := by
  rcases Nat.lt_or_ge t (a + 10 * p) with hlt | hge
  · rw [line_cons_bit b fs (by omega) h hlt, frameBit_stop b (le_refl 9), line_of_lt hs hlt]
  · rw [line, if_neg (by omega), if_neg (by omega)]

/-! ## One more frame -/

/-- A frame at the end is not seen before it begins. -/
theorem line_append_of_lt {fs : List (ℕ × BitVec 8)} {a : ℕ} (b : BitVec 8) (h : t < a) :
    line p (fs ++ [(a, b)]) t = line p fs t := by
  induction fs with
  | nil => exact line_cons_of_lt b [] h
  | cons f fs ih =>
    obtain ⟨a', b'⟩ := f
    rw [List.cons_append, line, line, ih]

/-- Frames that have ended are no longer seen. -/
theorem line_append_of_ended {fs gs : List (ℕ × BitVec 8)} (h : ∀ f ∈ fs, f.1 + 10 * p ≤ t) :
    line p (fs ++ gs) t = line p gs t := by
  induction fs with
  | nil => rfl
  | cons f fs ih =>
    obtain ⟨a, b⟩ := f
    have hend : a + 10 * p ≤ t := h (a, b) List.mem_cons_self
    rw [List.cons_append, line, if_neg (by omega), if_neg (by omega)]
    exact ih fun f hf => h f (List.mem_cons_of_mem _ hf)

/-- A frame behind the others leaves them spaced. -/
theorem Spaced.append {fs : List (ℕ × BitVec 8)} {t₀ a : ℕ} {b : BitVec 8} (hs : Spaced p t₀ fs)
    (h₀ : t₀ ≤ a) (h : ∀ f ∈ fs, f.1 + 10 * p ≤ a) : Spaced p t₀ (fs ++ [(a, b)]) := by
  induction fs generalizing t₀ with
  | nil => exact ⟨h₀, trivial⟩
  | cons f fs ih =>
    obtain ⟨a', b'⟩ := f
    refine ⟨hs.1, ih hs.2 ?_ fun f hf => h f (List.mem_cons_of_mem _ hf)⟩
    exact h (a', b') List.mem_cons_self

/-- Spaced frames begin at that time or later. -/
theorem Spaced.le_of_mem {fs : List (ℕ × BitVec 8)} {t₀ : ℕ} (hs : Spaced p t₀ fs)
    {f : ℕ × BitVec 8} (hf : f ∈ fs) : t₀ ≤ f.1 := by
  induction fs generalizing t₀ with
  | nil => cases hf
  | cons g fs ih =>
    obtain ⟨a, b⟩ := g
    have hfirst : t₀ ≤ a := hs.1
    rcases List.mem_cons.mp hf with rfl | hf
    · exact hfirst
    · have hlater := ih hs.2 hf
      omega

/-! ## Delays -/

/-- The frames of a line that arrive `k` cycles later. -/
def delay (k : ℕ) (fs : List (ℕ × BitVec 8)) : List (ℕ × BitVec 8) :=
  fs.map fun f => (f.1 + k, f.2)

/-- A delayed line shows the same later. -/
@[simp] theorem line_delay (k : ℕ) (fs : List (ℕ × BitVec 8)) (t : ℕ) :
    line p (delay k fs) (t + k) = line p fs t := by
  induction fs with
  | nil => rfl
  | cons f fs ih =>
    obtain ⟨a, b⟩ := f
    have hend : a + k + 10 * p = a + 10 * p + k := by omega
    show line p ((a + k, b) :: delay k fs) (t + k) = _
    rw [line, line, ih, hend, Nat.add_sub_add_right]
    simp only [Nat.add_lt_add_iff_right]

/-- Delayed frames are spaced as before. -/
theorem Spaced.delay {fs : List (ℕ × BitVec 8)} {t₀ : ℕ} (hs : Spaced p t₀ fs) (k : ℕ) :
    Spaced p (t₀ + k) (delay k fs) := by
  induction fs generalizing t₀ with
  | nil => trivial
  | cons f fs ih =>
    obtain ⟨a, b⟩ := f
    refine ⟨Nat.add_le_add_right hs.1 k, ?_⟩
    have hrest := ih hs.2
    rwa [Nat.add_right_comm] at hrest

/-- Delayed frames carry the same bytes. -/
theorem map_snd_delay (k : ℕ) (fs : List (ℕ × BitVec 8)) :
    (delay k fs).map Prod.snd = fs.map Prod.snd := by
  simp [delay]

/-! ## Sampled lines -/

/-- The byte of a frame, from the levels sampled behind the first of its start bit, sixteen to a
bit: each data bit is taken in its middle. -/
def sampledByte (xs : List Bool) : BitVec 8 := byteOf fun k => xs.getD (22 + 16 * k) false

/-- **The bytes on a line** that is sampled sixteen times a bit, from its levels at the samples. A
low level begins a frame. If the line is high again in the middle of the start bit, it was noise.
Else the frame ends in the middle of its stop bit, and without a valid one its byte is dropped. -/
def decode : List Bool → List (BitVec 8)
  | [] => []
  | true :: xs => decode xs
  | false :: xs =>
    if xs[6]? = some true then decode (xs.drop 7)
    else if xs.length < 151 then []
    else if xs[150]? = some true then sampledByte xs :: decode (xs.drop 151)
    else decode (xs.drop 151)
termination_by xs => xs.length

variable {xs : List Bool}

/-- The bits of a sampled byte lie 16 samples apart. -/
theorem getLsbD_sampledByte (xs : List Bool) {k : ℕ} (hk : k < 8) :
    (sampledByte xs).getLsbD k = xs.getD (22 + 16 * k) false := getLsbD_byteOf _ hk

/-- A bit that has been sampled stays. -/
theorem getLsbD_sampledByte_append {k : ℕ} (hk : k < 8) (h : 22 + 16 * k < xs.length)
    (ys : List Bool) : (sampledByte (xs ++ ys)).getLsbD k = (sampledByte xs).getLsbD k := by
  rw [getLsbD_sampledByte _ hk, getLsbD_sampledByte _ hk, List.getD_eq_getElem?_getD,
    List.getD_eq_getElem?_getD, List.getElem?_append_left h]

/-- Without samples no byte is decoded. -/
@[simp] theorem decode_nil : decode [] = [] := by rw [decode]

/-- An idle line carries nothing. -/
@[simp] theorem decode_high (xs : List Bool) : decode (true :: xs) = decode xs := by rw [decode]

/-- Noise is skipped with the half bit that has shown it. -/
theorem decode_noise (ys : List Bool) (hlen : xs.length = 6) :
    decode (false :: (xs ++ [true] ++ ys)) = decode ys := by
  have hmid : (xs ++ [true] ++ ys)[6]? = some true := by
    rw [List.append_assoc, List.getElem?_append_right (by omega), hlen]
    rfl
  have hdrop : (xs ++ [true] ++ ys).drop 7 = ys := List.drop_left' (by simp [hlen])
  rw [decode, if_pos hmid, hdrop]

/-- A frame of which the stop bit has not been sampled has no byte yet. -/
theorem decode_open (hlen : xs.length < 151) (hmid : xs[6]? ≠ some true) :
    decode (false :: xs) = [] := by
  rw [decode, if_neg hmid, if_pos hlen]

/-- The byte of a frame that has been sampled to its stop bit `x`. -/
theorem decode_frame (ys : List Bool) {x : Bool} (hlen : xs.length = 150)
    (hmid : xs[6]? ≠ some true) : decode (false :: (xs ++ [x] ++ ys)) =
      (if x then [sampledByte (xs ++ [x])] else []) ++ decode ys := by
  have hmid' : (xs ++ [x] ++ ys)[6]? ≠ some true := by
    rwa [List.append_assoc, List.getElem?_append_left (by omega)]
  have hstop : (xs ++ [x] ++ ys)[150]? = some x := by
    rw [List.append_assoc, List.getElem?_append_right (by omega), hlen]
    rfl
  have hdrop : (xs ++ [x] ++ ys).drop 151 = ys := List.drop_left' (by simp [hlen])
  have hbyte : sampledByte (xs ++ [x] ++ ys) = sampledByte (xs ++ [x]) := by
    apply BitVec.eq_of_getLsbD_eq
    intro k hk
    exact getLsbD_sampledByte_append hk (by simp; omega) ys
  have hlong : ¬ (xs ++ [x] ++ ys).length < 151 := by
    simp
    omega
  rw [decode, if_neg hmid', if_neg hlong, hstop, hdrop, hbyte]
  cases x
  · rfl
  · rfl

end SerialLine
