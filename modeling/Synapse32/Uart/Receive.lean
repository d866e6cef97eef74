import Synapse32.Uart.RxQueue
import Synapse32.Lib.SerialLine

/-! # UART receiver

What the receiver makes of a line that carries 8N1 frames: with the baud tick as its clock it is
followed from the tick that sees a start bit to the one that samples the stop bit, 151 ticks
later. -/

namespace Synapse32

namespace Uart

open SerialLine

variable {s : Uart} {i : UartIn} {b : BitVec 8} {N : ℕ}

/-! ## The baud tick -/

/-- The cycles from one baud tick to the next for divisor `d`. -/
def tickPeriod (d : BitVec 16) : ℕ := max d.toNat 1

/-- The cycle of the next baud tick, seen from cycle `t`. -/
def tickTime (s : Uart) (t : ℕ) : ℕ := t + s.baudTickCounter.toNat

/-- A tick takes some cycles. -/
theorem tickPeriod_pos (d : BitVec 16) : 0 < tickPeriod d := lt_max_of_lt_right Nat.one_pos

/-- A tick is due when it comes. -/
theorem tickTime_of_tick (h : baudTick s = true) (t : ℕ) : tickTime s t = t := by
  rw [baudTick, beq_iff_eq] at h
  rw [tickTime, h]
  rfl

/-- Between ticks the counter has not run down. -/
theorem counter_pos_of_no_tick (h : baudTick s = false) : 0 < s.baudTickCounter.toNat := by
  rw [baudTick, beq_eq_false_iff_ne] at h
  apply Nat.pos_of_ne_zero
  intro h0
  exact h (BitVec.eq_of_toNat_eq h0)

/-- A cycle without a tick does not move the next one. -/
theorem tickTime_next_of_no_tick (h : baudTick s = false) (t : ℕ) :
    tickTime (next s i) (t + 1) = tickTime s t := by
  have hcounter : (next s i).baudTickCounter = s.baudTickCounter - 1#16 := by
    show (if baudTick s then _ else _) = _
    rw [h, if_neg Bool.false_ne_true]
  have hpos := counter_pos_of_no_tick h
  have hsub : (s.baudTickCounter - 1#16).toNat = s.baudTickCounter.toNat - 1 := by
    apply BitVec.toNat_sub_of_le
    rw [BitVec.le_def]
    exact hpos
  rw [tickTime, tickTime, hcounter, hsub]
  omega

/-- Behind a tick the next one is a period away. -/
theorem tickTime_next_of_tick (h : baudTick s = true) (t : ℕ) :
    tickTime (next s i) (t + 1) = t + tickPeriod s.baudDiv := by
  have hcounter : (next s i).baudTickCounter.toNat = tickPeriod s.baudDiv - 1 := by
    show (if baudTick s then if 1#16 < s.baudDiv then s.baudDiv - 1#16 else 0#16 else _).toNat = _
    rw [h, if_pos rfl, tickPeriod]
    split
    next hlt =>
      rw [BitVec.lt_def] at hlt
      have hone : (1#16).toNat = 1 := rfl
      rw [BitVec.toNat_sub_of_le (BitVec.le_def.mpr hlt.le), max_eq_left (by omega)]
      rfl
    next hle =>
      rw [BitVec.lt_def, not_lt] at hle
      have hdiv : s.baudDiv.toNat ≤ 1 := hle
      rw [max_eq_right hdiv]
      rfl
  have hpos := tickPeriod_pos s.baudDiv
  rw [tickTime, hcounter]
  omega

/-! ## The receiver's clock edge -/

/-- A clear of the receive FIFO leaves the state machine alone. -/
theorem rxClear_fsm : (rxClear s i).state = s.rx.state ∧
    (rxClear s i).tickCount = s.rx.tickCount ∧ (rxClear s i).bitCount = s.rx.bitCount ∧
    (rxClear s i).shift = s.rx.shift := by
  rw [rxClear]
  split <;> exact ⟨rfl, rfl, rfl, rfl⟩

/-- Without a baud tick the receiver stands. -/
theorem rxFsm_of_no_tick (h : baudTick s = false) (t : UartRx) : rxFsm s i t = t := by
  rw [rxFsm, h]
  cases s.rx.state <;> rfl

/-- Between ticks nothing arrives. -/
theorem not_arrives_of_no_tick (h : baudTick s = false) : rxArrives s = false := by
  rw [rxArrives, rxStopTick, h, Bool.and_false, Bool.false_and]

/-- Bytes arrive at the stop bit only. -/
theorem not_arrives_of_ne_stop (h : s.rx.state ≠ .stop) : rxArrives s = false := by
  rw [rxArrives, rxStopTick, beq_false_of_ne h, Bool.false_and, Bool.false_and, Bool.false_and]

/-- The bits of a mask with one bit set. -/
theorem getLsbD_oneHot (k : ℕ) {j : ℕ} (hj : j < 8) :
    ((1#8) <<< k).getLsbD j = decide (j = k) := by
  rw [BitVec.getLsbD_shiftLeft, BitVec.getLsbD_one]
  by_cases hlt : j < k
  · have hne : j ≠ k := by omega
    simp [hlt, hne]
  · have hiff : j - k = 0 ↔ j = k := by omega
    simp [hlt, hj, hiff]

/-- Replacing bit `k` of the shift register. -/
theorem getLsbD_setShift (x : BitVec 8) {k : ℕ} (hk : k < 8) (v : Bool) (j : ℕ) :
    (setShift x k v).getLsbD j = if j = k then v else x.getLsbD j := by
  rw [setShift]
  rcases Nat.lt_or_ge j 8 with hj | hj
  · cases v
    · rw [if_neg Bool.false_ne_true, BitVec.getLsbD_and, BitVec.getLsbD_not, getLsbD_oneHot k hj]
      split
      next h => simp [h]
      next h => simp [h, hj]
    · rw [if_pos rfl, BitVec.getLsbD_or, getLsbD_oneHot k hj]
      split
      next h => simp [h]
      next h => simp [h]
  · have hne : j ≠ k := by omega
    rw [BitVec.getLsbD_of_ge _ _ hj, if_neg hne, BitVec.getLsbD_of_ge x _ hj]

/-- The receiver behind tick `N - 1` of a frame of byte `b`, counted from the tick that has seen the
start bit. -/
inductive RxPosition (r : UartRx) (b : BitVec 8) : ℕ → Prop
  | start {j : ℕ} (hj : j < 7) (hs : r.state = .start) (ht : r.tickCount.toNat = j) :
      RxPosition r b (j + 1)
  | data {k j : ℕ} (hk : k < 8) (hj : j < 16) (hs : r.state = .data)
      (hc : r.bitCount.toNat = k) (ht : r.tickCount.toNat = j)
      (hb : ∀ l, r.shift.getLsbD l = (decide (l < k) && b.getLsbD l)) :
      RxPosition r b (8 + 16 * k + j)
  | stop {j : ℕ} (hj : j < 16) (hs : r.state = .stop) (ht : r.tickCount.toNat = j)
      (hb : r.shift = b) : RxPosition r b (136 + j)

/-- The position is told by state, counts and shift register alone. -/
theorem RxPosition.of_eq {r r' : UartRx} (h : RxPosition r b N) (hs : r'.state = r.state)
    (ht : r'.tickCount = r.tickCount) (hc : r'.bitCount = r.bitCount) (hb : r'.shift = r.shift) :
    RxPosition r' b N := by
  cases h with
  | start hj h₁ h₂ => exact .start hj (hs.trans h₁) (ht ▸ h₂)
  | data hk hj h₁ h₂ h₃ h₄ => exact .data hk hj (hs.trans h₁) (hc ▸ h₂) (ht ▸ h₃) (hb ▸ h₄)
  | stop hj h₁ h₂ h₃ => exact .stop hj (hs.trans h₁) (ht ▸ h₂) (hb.trans h₃)

/-- Where the receiver is in a frame tells of its byte only the bits that it has sampled. -/
theorem RxPosition.congr {r : UartRx} {b' : BitVec 8} (h : RxPosition r b N)
    (hb : ∀ k < 8, 23 + 16 * k < N → b'.getLsbD k = b.getLsbD k) : RxPosition r b' N := by
  cases h with
  | start hj hs ht => exact .start hj hs ht
  | @data k j hk hj hs hc ht hbits =>
    refine .data hk hj hs hc ht fun l => ?_
    rw [hbits l]
    by_cases hl : l < k
    · rw [hb l (by omega) (by omega)]
    · simp [hl]
  | @stop j hj hs ht hbyte =>
    refine .stop hj hs ht (hbyte.trans ?_)
    apply BitVec.eq_of_getLsbD_eq
    intro k hk
    exact (hb k hk (by omega)).symm

/-- Only the last tick of a frame takes a byte. -/
theorem RxPosition.not_arrives (h : RxPosition s.rx b N) (hN : N < 151) : rxArrives s = false := by
  cases h with
  | start _ hs => exact not_arrives_of_ne_stop (by rw [hs]; decide)
  | data _ _ hs => exact not_arrives_of_ne_stop (by rw [hs]; decide)
  | @stop j hj hs ht hb =>
    have hcount : s.rx.tickCount ≠ 15#4 := by
      intro h15
      rw [h15] at ht
      have hval : (15#4).toNat = 15 := rfl
      omega
    rw [rxArrives, rxStopTick, beq_false_of_ne hcount, Bool.and_false, Bool.false_and,
      Bool.false_and]

/-! ## One tick -/

/-- The tick counter counts up to 15. -/
theorem toNat_tickCount_succ {x : BitVec 4} {j : ℕ} (h : x.toNat = j) (hj : j < 15) :
    (x + 1#4).toNat = j + 1 := by
  rw [BitVec.toNat_add, h]
  show (j + 1) % 16 = j + 1
  omega

/-- The shift register behind data bit `k`. -/
theorem shift_bits {x : BitVec 8} {k : ℕ} (hk : k < 8) {v : Bool} (hv : v = b.getLsbD k)
    (hx : ∀ l, x.getLsbD l = (decide (l < k) && b.getLsbD l)) (l : ℕ) :
    (setShift x k v).getLsbD l = (decide (l < k + 1) && b.getLsbD l) := by
  rw [getLsbD_setShift x hk, hx, hv]
  by_cases hl : l = k
  · subst hl
    simp
  · rw [if_neg hl]
    congr 2
    exact propext ⟨fun h => by omega, fun h => by omega⟩

/-- A tick in the start bit. The seventh sees its middle and opens the data bits. -/
theorem RxPosition.tick_start {j : ℕ} (hj : j < 7) (hs : s.rx.state = .start)
    (ht : s.rx.tickCount.toNat = j) (htick : baudTick s = true)
    (hline : j = 6 → s.rx.rxSync = false) :
    RxPosition (rxFsm s i (rxClear s i)) b (j + 2) := by
  obtain ⟨hstate, -⟩ := rxClear_fsm (s := s) (i := i)
  rw [rxFsm, htick, hs]
  by_cases h6 : s.rx.tickCount = 6#4
  · obtain rfl : j = 6 := by
      rw [h6] at ht
      exact ht.symm
    rw [hline rfl, h6]
    refine RxPosition.data (k := 0) (j := 0) (by decide) (by decide) rfl rfl rfl fun l => ?_
    show (0#8).getLsbD l = _
    simp
  · have hne : j ≠ 6 := fun h => h6 (BitVec.eq_of_toNat_eq (ht.trans h))
    rw [bne_iff_ne.mpr h6]
    exact RxPosition.start (j := j + 1) (by omega) (hstate.trans hs)
      (toNat_tickCount_succ ht (by omega))

/-- A tick in data bit `k`. The sixteenth shifts the level of the line in. -/
theorem RxPosition.tick_data {k j : ℕ} (hk : k < 8) (hj : j < 16) (hs : s.rx.state = .data)
    (hc : s.rx.bitCount.toNat = k) (ht : s.rx.tickCount.toNat = j)
    (hb : ∀ l, s.rx.shift.getLsbD l = (decide (l < k) && b.getLsbD l)) (htick : baudTick s = true)
    (hline : j = 15 → s.rx.rxSync = b.getLsbD k) :
    RxPosition (rxFsm s i (rxClear s i)) b (8 + 16 * k + j + 1) := by
  obtain ⟨hstate, -, hbits, hshift⟩ := rxClear_fsm (s := s) (i := i)
  rw [rxFsm, htick, hs]
  by_cases h15 : s.rx.tickCount = 15#4
  · obtain rfl : j = 15 := by
      rw [h15] at ht
      exact ht.symm
    have hnew := shift_bits hk (hline rfl) hb
    rw [h15]
    by_cases h7 : s.rx.bitCount = 7#3
    · -- The last data bit completes the byte.
      obtain rfl : k = 7 := by
        rw [h7] at hc
        exact hc.symm
      rw [h7]
      refine RxPosition.stop (j := 0) (by decide) rfl rfl ?_
      apply BitVec.eq_of_getLsbD_eq
      intro l hl
      exact (hnew l).trans (by simp [hl])
    · have hne : k ≠ 7 := fun h => h7 (BitVec.eq_of_toNat_eq (hc.trans h))
      have hnext : 8 + 16 * (k + 1) + 0 = 8 + 16 * k + 15 + 1 := by omega
      rw [← hnext, beq_false_of_ne h7]
      refine RxPosition.data (by omega) (by decide) (hstate.trans hs) ?_ rfl ?_
      · show (s.rx.bitCount + 1#3).toNat = k + 1
        rw [BitVec.toNat_add, hc]
        show (k + 1) % 8 = k + 1
        omega
      · show ∀ l, (setShift s.rx.shift s.rx.bitCount.toNat s.rx.rxSync).getLsbD l = _
        rw [hc]
        exact hnew
  · have hne : j ≠ 15 := fun h => h15 (BitVec.eq_of_toNat_eq (ht.trans h))
    rw [bne_iff_ne.mpr h15]
    refine RxPosition.data (j := j + 1) hk (by omega) (hstate.trans hs) ?_
      (toNat_tickCount_succ ht (by omega)) ?_
    · exact (congrArg BitVec.toNat hbits).trans hc
    · intro l
      exact (congrArg (BitVec.getLsbD · l) hshift).trans (hb l)

/-- A tick in the stop bit before the sixteenth. -/
theorem RxPosition.tick_stop {j : ℕ} (hj : j < 15) (hs : s.rx.state = .stop)
    (ht : s.rx.tickCount.toNat = j) (hb : s.rx.shift = b) (htick : baudTick s = true) :
    RxPosition (rxFsm s i (rxClear s i)) b (136 + j + 1) := by
  obtain ⟨hstate, -, -, hshift⟩ := rxClear_fsm (s := s) (i := i)
  have h15 : s.rx.tickCount ≠ 15#4 := by
    intro h15
    rw [h15] at ht
    have hval : (15#4).toNat = 15 := rfl
    omega
  rw [rxFsm, htick, hs, bne_iff_ne.mpr h15]
  exact RxPosition.stop (j := j + 1) (by omega) (hstate.trans hs)
    (toNat_tickCount_succ ht (by omega)) (hshift.trans hb)

/-- **Step.** A tick in the middle of a frame, if the line is low in the middle of the start bit and
carries the bit of each tick that samples one. -/
theorem RxPosition.tick (h : RxPosition s.rx b N) (htick : baudTick s = true) (hN : N < 151)
    (hmid : N = 7 → s.rx.rxSync = false)
    (hbit : ∀ k < 8, N = 23 + 16 * k → s.rx.rxSync = b.getLsbD k) :
    RxPosition (next s i).rx b (N + 1) := by
  suffices hfsm : RxPosition (rxFsm s i (rxClear s i)) b (N + 1) from hfsm.of_eq rfl rfl rfl rfl
  cases h with
  | @start j hj hs ht => exact tick_start hj hs ht htick fun h => hmid (by omega)
  | @data k j hk hj hs hc ht hb =>
    exact tick_data hk hj hs hc ht hb htick fun h => hbit k hk (by omega)
  | stop hj hs ht hb => exact tick_stop (by omega) hs ht hb htick

/-- **Step.** A line that is high in the middle of the start bit was noise. -/
theorem RxPosition.noise (h : RxPosition s.rx b 7) (htick : baudTick s = true)
    (hline : s.rx.rxSync = true) : (next s i).rx.state = .idle := by
  generalize hN : 7 = N at h
  cases h with
  | @start j hj hs ht =>
    have h6 : s.rx.tickCount = 6#4 := by
      apply BitVec.eq_of_toNat_eq
      rw [ht]
      show j = 6
      omega
    show (rxFsm s i (rxClear s i)).state = .idle
    rw [rxFsm, hs, htick, h6, hline]
    rfl
  | data => omega
  | stop => omega

/-- **Step.** The tick that samples the stop bit ends the frame, and takes the byte if the stop bit
is valid. -/
theorem RxPosition.arrive (h : RxPosition s.rx b 151) (htick : baudTick s = true) :
    rxArrives s = s.rx.rxSync ∧ s.rx.shift = b ∧ (next s i).rx.state = .idle := by
  generalize hN : 151 = N at h
  cases h with
  | start => omega
  | data => omega
  | @stop j hj hs ht hb =>
    have h15 : s.rx.tickCount = 15#4 := by
      apply BitVec.eq_of_toNat_eq
      rw [ht]
      show j = 15
      omega
    refine ⟨?_, hb, ?_⟩
    · rw [rxArrives, rxStopTick, hs, h15, htick]
      rfl
    · show (rxFsm s i (rxClear s i)).state = .idle
      rw [rxFsm, hs, htick, h15]
      rfl

/-- **Step.** On a tick a receiver that waits sees the level of the line. -/
theorem rx_idle_tick (hs : s.rx.state = .idle) (htick : baudTick s = true) :
    if s.rx.rxSync then (next s i).rx.state = .idle else RxPosition (next s i).rx b 1 := by
  have hstate : (rxClear s i).state = .idle := rxClear_fsm.1.trans hs
  cases hline : s.rx.rxSync
  · refine RxPosition.start (j := 0) (by decide) ?_ ?_
    · show (rxFsm s i (rxClear s i)).state = .start
      rw [rxFsm, hs, htick, hline]
      rfl
    · show (rxFsm s i (rxClear s i)).tickCount.toNat = 0
      rw [rxFsm, hs, htick, hline]
      rfl
  · show (rxFsm s i (rxClear s i)).state = .idle
    rw [rxFsm, hs, htick, hline]
    exact hstate

/-- A cycle without a tick leaves the receiver where it is. -/
theorem rx_next_of_no_tick (h : baudTick s = false) : (next s i).rx.state = s.rx.state ∧
    (next s i).rx.tickCount = s.rx.tickCount ∧ (next s i).rx.bitCount = s.rx.bitCount ∧
    (next s i).rx.shift = s.rx.shift := by
  have hfsm : rxFsm s i (rxClear s i) = rxClear s i := rxFsm_of_no_tick h _
  obtain ⟨h₁, h₂, h₃, h₄⟩ := rxClear_fsm (s := s) (i := i)
  refine ⟨?_, ?_, ?_, ?_⟩
  · exact (congrArg UartRx.state hfsm).trans h₁
  · exact (congrArg UartRx.tickCount hfsm).trans h₂
  · exact (congrArg UartRx.bitCount hfsm).trans h₃
  · exact (congrArg UartRx.shift hfsm).trans h₄

/-! ## Following the line -/

/-- The receiver with its next tick in cycle `τ` and the frames `fs` still to be taken: it waits,
having had no tick since the first of them began, or it is at that tick of the first of them which
falls in cycle `τ`. -/
inductive Receiving (D : ℕ) (r : UartRx) (τ : ℕ) : List (ℕ × BitVec 8) → Prop
  | idle {fs : List (ℕ × BitVec 8)} (hs : r.state = .idle) (h : ∀ f ∈ fs, τ < f.1 + D) :
      Receiving D r τ fs
  | frame {a N : ℕ} {b : BitVec 8} {fs : List (ℕ × BitVec 8)} (hN : N ≤ 151)
      (hlo : a + N * D ≤ τ) (hhi : τ < a + (N + 1) * D) (hp : RxPosition r b N) :
      Receiving D r τ ((a, b) :: fs)

variable {D t₀ τ : ℕ} {fs : List (ℕ × BitVec 8)}

/-- What is being received is told by state, counts and shift register alone. -/
theorem Receiving.of_eq {r r' : UartRx} (h : Receiving D r τ fs) (hs : r'.state = r.state)
    (ht : r'.tickCount = r.tickCount) (hc : r'.bitCount = r.bitCount) (hb : r'.shift = r.shift) :
    Receiving D r' τ fs := by
  cases h with
  | idle h₁ h₂ => exact .idle (hs.trans h₁) h₂
  | frame hN hlo hhi hp => exact .frame hN hlo hhi (hp.of_eq hs ht hc hb)

/-- The level at tick `N` of a frame is that of bit `N / 16`. -/
theorem line_at_tick {a : ℕ} (hN : N ≤ 151) (hlo : a + N * D ≤ τ) (hhi : τ < a + (N + 1) * D) :
    line (16 * D) ((a, b) :: fs) τ = frameBit b (N / 16) := by
  have hmod := Nat.div_add_mod N 16
  have hdiv : N / 16 * (16 * D) ≤ N * D := by
    rw [← Nat.mul_assoc]
    exact Nat.mul_le_mul_right D (Nat.div_mul_le_self N 16)
  have hnext : (N + 1) * D ≤ (N / 16 + 1) * (16 * D) := by
    rw [← Nat.mul_assoc]
    apply Nat.mul_le_mul_right
    omega
  apply line_cons_bit
  · omega
  · omega
  · omega

/-- **Step.** A tick takes the receiver one tick further, and the one that samples a stop bit
takes the byte of the frame. -/
theorem Receiving.tick (h : Receiving D s.rx τ fs) (htick : baudTick s = true)
    (hspaced : Spaced (16 * D) t₀ fs) (hline : s.rx.rxSync = line (16 * D) fs τ) :
    (rxArrives s = false ∧ Receiving D (next s i).rx (τ + D) fs) ∨
    ∃ a fs', fs = (a, s.rx.shift) :: fs' ∧ rxArrives s = true ∧ a + 9 * (16 * D) ≤ τ + D ∧
      Receiving D (next s i).rx (τ + D) fs' := by
  cases h with
  | idle hs hwait =>
    have hidle := fun b => rx_idle_tick (i := i) (b := b) hs htick
    have hnone : rxArrives s = false := not_arrives_of_ne_stop (by rw [hs]; decide)
    refine .inl ⟨hnone, ?_⟩
    rw [hline] at hidle
    cases fs with
    | nil => exact .idle (hidle 0#8) (fun f hf => nomatch hf)
    | cons f fs =>
      obtain ⟨a, b⟩ := f
      have ha := hwait (a, b) List.mem_cons_self
      rcases Nat.lt_or_ge τ a with hlt | hge
      · -- The first frame has not begun.
        rw [line_cons_of_lt b fs hlt] at hidle
        refine .idle (hidle b) fun f hf => ?_
        rcases List.mem_cons.mp hf with rfl | hf
        · exact Nat.add_lt_add_right hlt D
        · have hlater := hspaced.2.le_of_mem hf
          omega
      · have hlow : line (16 * D) ((a, b) :: fs) τ = false :=
          line_at_tick (N := 0) (by decide) (by omega) (by omega)
        rw [hlow] at hidle
        exact .frame (N := 1) (by decide) (by omega) (by omega) (hidle b)
  | @frame a N b fs hN hlo hhi hp =>
    rw [line_at_tick hN hlo hhi] at hline
    have hstep : (N + 1) * D = N * D + D := Nat.succ_mul N D
    have hstep' : (N + 1 + 1) * D = (N + 1) * D + D := Nat.succ_mul (N + 1) D
    rcases Nat.lt_or_ge N 151 with hlt | hge
    · have hmid : N = 7 → s.rx.rxSync = false := fun h => by rw [hline, h]; rfl
      have hbit : ∀ k < 8, N = 23 + 16 * k → s.rx.rxSync = b.getLsbD k := by
        intro k hk h
        have hdiv : N / 16 = k + 1 := by omega
        rw [hline, hdiv, frameBit_data b hk]
      exact .inl ⟨hp.not_arrives hlt,
        .frame (N := N + 1) hlt (by omega) (by omega) (hp.tick htick hlt hmid hbit)⟩
    · obtain rfl : N = 151 := le_antisymm hN hge
      obtain ⟨harrives, hshift, hidle⟩ := hp.arrive (i := i) htick
      refine .inr ⟨a, fs, by rw [hshift], harrives.trans hline, by omega,
        .idle hidle fun f hf => ?_⟩
      have hlater := hspaced.2.le_of_mem hf
      omega

/-! ## Over runs -/

variable {s₀ : Uart} {ins : ℕ → UartIn} {d : BitVec 16} {frames : List (ℕ × BitVec 8)} {n : ℕ}

/-- The registers before cycle `n`, from any state. -/
def runFrom (s₀ : Uart) (ins : ℕ → UartIn) (n : ℕ) : Uart := Clocked.run next s₀ ins n

/-- The cycles from `n0` on. -/
def fromCycle (ins : ℕ → UartIn) (n0 j : ℕ) : UartIn := ins (n0 + j)

/-- A run goes on from the registers of one of its cycles. -/
theorem run_add (u : UartPowerOn) (ins : ℕ → UartIn) (n0 j : ℕ) :
    run u ins (n0 + j) = runFrom (run u ins n0) (fromCycle ins n0) j :=
  Clocked.run_add _ _ ins n0 j

/-- The bytes that arrive before cycle `n`, whatever becomes of them. -/
def bytesArrived (s₀ : Uart) (ins : ℕ → UartIn) (n : ℕ) : List (BitVec 8) :=
  Clocked.log next s₀ ins (fun s _ => (arrival s).toList) n

/-- The bytes queued before cycle `n`. -/
def bytesQueued (s₀ : Uart) (ins : ℕ → UartIn) (n : ℕ) : List (BitVec 8) :=
  Clocked.log next s₀ ins (fun s i => (rxPush s i).toList) n

/-- The receiver waits on a line that is high, and the baud counter runs with divisor `d`. -/
structure RxQuiet (d : BitVec 16) (s : Uart) : Prop where
  state : s.rx.state = .idle
  rxMeta : s.rx.rxMeta = true
  rxSync : s.rx.rxSync = true
  counter : s.baudTickCounter.toNat < tickPeriod d

/-- The FIFO is neither cleared nor overrun in cycle `t`. -/
def Keeps (s₀ : Uart) (ins : ℕ → UartIn) (t : ℕ) : Prop :=
  rxFifoClearRequest (ins t) = false ∧ overruns (runFrom s₀ ins t) (ins t) = false

/-- The two flops delay the line by two cycles. -/
theorem rxSync_run (hq : RxQuiet d s₀)
    (hspaced : Spaced (16 * tickPeriod d) 0 frames)
    (hline : ∀ t < n, (ins t).rx = line (16 * tickPeriod d) frames t) :
    ∀ t, t < n + 2 → (runFrom s₀ ins t).rx.rxSync =
      line (16 * tickPeriod d) (delay 2 frames) t := by
  intro t ht
  match t with
  | 0 => rw [line_of_lt (hspaced.delay 2) (by decide)]; exact hq.rxSync
  | 1 => rw [line_of_lt (hspaced.delay 2) (by decide)]; exact hq.rxMeta
  | t + 2 => rw [line_delay, ← hline t (by omega)]; rfl

/-- How far a run has come: the bytes that have arrived are those of the first frames, and the
receiver follows the others. -/
structure Follows (s₀ : Uart) (ins : ℕ → UartIn) (D : ℕ) (frames done rest : List (ℕ × BitVec 8))
    (n : ℕ) : Prop where
  split : frames = done ++ rest
  arrived : bytesArrived s₀ ins n = done.map Prod.snd
  receiving : Receiving D (runFrom s₀ ins n).rx (tickTime (runFrom s₀ ins n) n) rest
  line : ∀ t, tickTime (runFrom s₀ ins n) n ≤ t → line (16 * D) frames t = line (16 * D) rest t
  spaced : ∃ t₀, Spaced (16 * D) t₀ rest

/-- One more cycle of arrivals. -/
theorem bytesArrived_succ : bytesArrived s₀ ins (n + 1) =
    bytesArrived s₀ ins n ++ (arrival (runFrom s₀ ins n)).toList := Clocked.log_succ ins _ n

/-- One more cycle of bytes queued. -/
theorem bytesQueued_succ : bytesQueued s₀ ins (n + 1) =
    bytesQueued s₀ ins n ++ (rxPush (runFrom s₀ ins n) (ins n)).toList := Clocked.log_succ ins _ n

/-- Without an arrival no byte is logged. -/
theorem arrival_of_not_arrives (h : rxArrives s = false) : arrival s = none := by
  rw [arrival, h, if_neg Bool.false_ne_true]

/-- Without a clear or an overrun a byte that arrives is queued. -/
theorem rxPush_eq_arrival (hclear : rxFifoClearRequest i = false) (hover : overruns s i = false) :
    rxPush s i = arrival s := by
  rcases ha : arrival s with _ | b
  · rcases hp : rxPush s i with _ | b
    · rfl
    · rw [arrival_of_push hp] at ha
      cases ha
  · by_contra hne
    rcases dropped_cases ha hne with hc | ho
    · rw [hc] at hclear
      cases hclear
    · rw [ho] at hover
      cases hover

/-- Where the FIFO keeps what arrives, that is what is queued. -/
theorem bytesQueued_eq (h : ∀ t < n, Keeps s₀ ins t) :
    bytesQueued s₀ ins n = bytesArrived s₀ ins n := by
  induction n with
  | zero => rfl
  | succ n ih =>
    obtain ⟨hclear, hover⟩ := h n (Nat.lt_succ_self n)
    rw [bytesQueued_succ, bytesArrived_succ, ih fun t ht => h t (Nat.lt_succ_of_lt ht),
      rxPush_eq_arrival hclear hover]

/-- **Step.** The receiver follows the line for one more cycle. -/
theorem Follows.next {done rest : List (ℕ × BitVec 8)}
    (h : Follows s₀ ins (tickPeriod d) frames done rest n)
    (hdiv : (runFrom s₀ ins n).baudDiv = d)
    (hsync : (runFrom s₀ ins n).rx.rxSync = SerialLine.line (16 * tickPeriod d) frames n) :
    ∃ done' rest', Follows s₀ ins (tickPeriod d) frames done' rest' (n + 1) := by
  obtain ⟨t₀, hspaced⟩ := h.spaced
  cases htick : baudTick (runFrom s₀ ins n)
  · -- Nothing moves.
    have htime : tickTime (runFrom s₀ ins (n + 1)) (n + 1) = tickTime (runFrom s₀ ins n) n :=
      tickTime_next_of_no_tick htick n
    obtain ⟨hs, ht, hc, hb⟩ := rx_next_of_no_tick (i := ins n) htick
    refine ⟨done, rest, h.split, ?_, ?_, ?_, t₀, hspaced⟩
    · rw [bytesArrived_succ, arrival_of_not_arrives (not_arrives_of_no_tick htick), h.arrived]
      exact List.append_nil _
    · rw [htime]
      exact h.receiving.of_eq hs ht hc hb
    · rw [htime]
      exact h.line
  · have hnow : tickTime (runFrom s₀ ins n) n = n := tickTime_of_tick htick n
    have htime : tickTime (runFrom s₀ ins (n + 1)) (n + 1) = n + tickPeriod d := by
      rw [← hdiv]
      exact tickTime_next_of_tick htick n
    have hreceiving := h.receiving
    have hline := h.line
    rw [hnow] at hreceiving hline
    rw [hline n (le_refl n)] at hsync
    rcases hreceiving.tick (i := ins n) htick hspaced hsync with
      ⟨hnone, hnext⟩ | ⟨a, fs, rfl, harrives, hstop, hnext⟩
    · refine ⟨done, rest, h.split, ?_, ?_, fun t ht => ?_, t₀, hspaced⟩
      · rw [bytesArrived_succ, arrival_of_not_arrives hnone, h.arrived]
        exact List.append_nil _
      · rw [htime]
        exact hnext
      · rw [htime] at ht
        exact hline t (by omega)
    · refine ⟨done ++ [(a, (runFrom s₀ ins n).rx.shift)], fs, ?_, ?_, ?_, fun t ht => ?_, _,
        hspaced.2⟩
      · rw [h.split, List.append_assoc]
        rfl
      · rw [bytesArrived_succ, arrival, if_pos harrives, h.arrived, List.map_append]
        rfl
      · rw [htime]
        exact hnext
      · rw [htime] at ht
        rw [hline t (by omega), line_cons_of_stop hspaced.2 (by omega)]

/-- The bytes `got` before cycle `n` are those of `frames`, in order, with every frame whose stop
bit has been sampled. -/
structure Received (D : ℕ) (frames : List (ℕ × BitVec 8)) (got : List (BitVec 8)) (n : ℕ) :
    Prop where
  inOrder : got <+: frames.map Prod.snd
  complete : ∀ k, (∀ f ∈ frames.take k, f.1 + 152 * D + 2 ≤ n) →
    (frames.take k).map Prod.snd <+: got

/-- A frame that is still to be taken has not come to the end of its stop bit. -/
theorem Receiving.pending {r : UartRx} {f : ℕ × BitVec 8} (h : Receiving D r τ (f :: fs)) :
    τ < f.1 + 152 * D := by
  cases h with
  | idle _ hwait =>
    have hf := hwait f List.mem_cons_self
    omega
  | frame hN _ hhi =>
    have hle := Nat.mul_le_mul_right D (Nat.succ_le_succ hN)
    exact lt_of_lt_of_le hhi (Nat.add_le_add_left hle _)

/-- **The receiver decodes the line**: from a quiet state, on a line of frames of `16` tick periods
a bit with any gaps between them, whatever the counter's phase is and whatever the FIFO does with
them, their bytes arrive in order. -/
theorem arrived (hq : RxQuiet d s₀) (hspaced : Spaced (16 * tickPeriod d) 0 frames)
    (hdiv : ∀ t < n, (runFrom s₀ ins t).baudDiv = d)
    (hline : ∀ t < n, (ins t).rx = line (16 * tickPeriod d) frames t) :
    Received (tickPeriod d) frames (bytesArrived s₀ ins n) n := by
  have hsync := rxSync_run hq hspaced hline
  have hfollows : ∀ t ≤ n, ∃ done rest,
      Follows s₀ ins (tickPeriod d) (delay 2 frames) done rest t := by
    intro t
    induction t with
    | zero =>
      intro _
      refine ⟨[], delay 2 frames, rfl, rfl, .idle hq.state fun f hf => ?_, fun _ _ => rfl, 0 + 2,
        hspaced.delay 2⟩
      have hstart := (hspaced.delay 2).le_of_mem hf
      have hcounter := hq.counter
      show 0 + s₀.baudTickCounter.toNat < _
      omega
    | succ t ih =>
      intro ht
      obtain ⟨done, rest, h⟩ := ih (by omega)
      exact h.next (hdiv t ht) (hsync t (by omega))
  obtain ⟨done, rest, h⟩ := hfollows n (le_refl n)
  have hbytes : frames.map Prod.snd = done.map Prod.snd ++ rest.map Prod.snd := by
    rw [← map_snd_delay 2 frames, h.split, List.map_append]
  constructor
  · rw [h.arrived, hbytes]
    exact List.prefix_append _ _
  · intro k hk
    have hlen : k ≤ done.length ∨ rest = [] := by
      by_contra hne
      push Not at hne
      obtain ⟨hlt, hrest⟩ := hne
      obtain ⟨f, rest', rfl⟩ := List.exists_cons_of_ne_nil hrest
      -- The first frame that is not taken is among the first `k`, and it is not over.
      have hpending := h.receiving.pending
      have hget : (delay 2 frames)[done.length]? = some f := by
        rw [h.split, List.getElem?_append_right (le_refl _), Nat.sub_self]
        rfl
      rw [delay, List.getElem?_map] at hget
      obtain ⟨g, hg, rfl⟩ := Option.map_eq_some_iff.mp hget
      have hmem : g ∈ frames.take k := by
        apply List.mem_of_getElem? (i := done.length)
        rw [List.getElem?_take_of_lt hlt]
        exact hg
      have hover := hk g hmem
      have hnow : n ≤ tickTime (runFrom s₀ ins n) n := Nat.le_add_right _ _
      have hpending : tickTime (runFrom s₀ ins n) n < g.1 + 2 + 152 * tickPeriod d := hpending
      omega
    rw [h.arrived, List.map_take, hbytes]
    rcases hlen with hle | rfl
    · rw [List.take_append_of_le_length (by simpa using hle)]
      exact List.take_prefix _ _
    · rw [List.map_nil, List.append_nil]
      exact List.take_prefix _ _

/-- A FIFO that keeps what arrives queues the bytes of the line. -/
theorem received (hq : RxQuiet d s₀) (hspaced : Spaced (16 * tickPeriod d) 0 frames)
    (hdiv : ∀ t < n, (runFrom s₀ ins t).baudDiv = d)
    (hline : ∀ t < n, (ins t).rx = line (16 * tickPeriod d) frames t)
    (hkeep : ∀ t < n, Keeps s₀ ins t) :
    Received (tickPeriod d) frames (bytesQueued s₀ ins n) n := by
  rw [bytesQueued_eq hkeep]
  exact arrived hq hspaced hdiv hline

end Uart

end Synapse32
