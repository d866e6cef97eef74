import Synapse32.Uart.Receive
import Synapse32.Uart.Frames

/-! # UART loopback

The line that the transmitter drives over time is one of 8N1 frames, one for each start, so that a
receiver with the same divisor takes their bytes. -/

namespace Synapse32

namespace Uart

open SerialLine

variable {s : Uart} {i : UartIn} {b : BitVec 8} {k : ℕ}

/-! ## The bit tick -/

/-- The cycle of the next bit tick, seen from cycle `t`, with `D` cycles from one baud tick to the
next. -/
def bitTickTime (D : ℕ) (s : Uart) (t : ℕ) : ℕ := tickTime s t + (15 - s.txTickCount.toNat) * D

/-- A bit takes some cycles. -/
theorem bitPeriod_pos (d : BitVec 16) : 0 < 16 * tickPeriod d :=
  Nat.mul_pos (by decide) (tickPeriod_pos d)

/-- A bit tick is every sixteenth tick. -/
theorem txBitTick_eq_true : txBitTick s = true ↔ baudTick s = true ∧ s.txTickCount = 15#4 := by
  rw [txBitTick, Bool.and_eq_true, beq_iff_eq]

/-- A bit tick is due when it comes. -/
theorem bitTickTime_of_bitTick (h : txBitTick s = true) (D t : ℕ) : bitTickTime D s t = t := by
  obtain ⟨htick, hcount⟩ := txBitTick_eq_true.mp h
  have hval : (15#4).toNat = 15 := rfl
  rw [bitTickTime, tickTime_of_tick htick, hcount, hval, Nat.sub_self, Nat.zero_mul, Nat.add_zero]

/-- Without a bit tick the next one is later. -/
theorem lt_bitTickTime {D : ℕ} (hD : 0 < D) (h : txBitTick s = false) (t : ℕ) :
    t < bitTickTime D s t := by
  rw [bitTickTime, tickTime]
  cases htick : baudTick s
  · have hpos := counter_pos_of_no_tick htick
    omega
  · rw [txBitTick, htick, Bool.true_and, beq_eq_false_iff_ne] at h
    have hne : s.txTickCount.toNat ≠ 15 := fun h15 => h (BitVec.eq_of_toNat_eq h15)
    have hlt := s.txTickCount.isLt
    have hpos : 0 < (15 - s.txTickCount.toNat) * D := Nat.mul_pos (by omega) hD
    omega

/-- **Step.** The next bit tick comes nearer, and behind one it is 16 baud ticks away. -/
theorem bitTickTime_next (t : ℕ) :
    bitTickTime (tickPeriod s.baudDiv) (next s i) (t + 1) =
      if txBitTick s then t + 16 * tickPeriod s.baudDiv
      else bitTickTime (tickPeriod s.baudDiv) s t := by
  have hcount : (next s i).txTickCount =
      if baudTick s then s.txTickCount + 1#4 else s.txTickCount := rfl
  rw [bitTickTime, bitTickTime, hcount]
  cases htick : baudTick s
  · have hbit : txBitTick s = false := by rw [txBitTick, htick, Bool.false_and]
    rw [hbit, tickTime_next_of_no_tick htick]
    rfl
  · rw [tickTime_next_of_tick htick, tickTime_of_tick htick, txBitTick, htick, Bool.true_and,
      if_pos rfl]
    by_cases h15 : s.txTickCount = 15#4
    · rw [h15]
      show t + tickPeriod s.baudDiv + 15 * tickPeriod s.baudDiv = t + 16 * tickPeriod s.baudDiv
      omega
    · have hne : s.txTickCount.toNat ≠ 15 := fun h => h15 (BitVec.eq_of_toNat_eq h)
      have hlt := s.txTickCount.isLt
      have hsucc : (s.txTickCount + 1#4).toNat = s.txTickCount.toNat + 1 :=
        toNat_tickCount_succ rfl (by omega)
      have hsplit : 15 - s.txTickCount.toNat = 15 - (s.txTickCount.toNat + 1) + 1 := by omega
      rw [beq_false_of_ne h15, if_neg Bool.false_ne_true, hsucc, hsplit, Nat.succ_mul]
      omega

/-! ## Where frames start and end -/

/-- Within a frame none starts. -/
theorem frameStart_of_atBit (h : AtBit s.tx k) (hk : txBitTick s = true → k < 9) :
    frameStart s = none := by
  rw [frameStart]
  cases ht : txBitTick s
  · rfl
  · cases h with
    | start hs => rw [hs]; rfl
    | data _ hs => rw [hs]; rfl
    | stop => exact absurd (hk ht) (by decide)

/-- An idle transmitter that starts no frame keeps the line high. -/
theorem idle_next (hs : s.tx.state = .idle) (ho : s.tx.out = true) (hf : frameStart s = none) :
    (next s i).tx.state = .idle ∧ (next s i).tx.out = true := by
  rw [state_next, out_next]
  cases ht : txBitTick s
  · rw [txFsm_of_no_tick ht]
    exact ⟨hs, ho⟩
  · rw [frameStart, ht, hs] at hf
    rw [txFsm, ht, hs]
    revert hf
    cases s.tx.startPending <;> cases txFifoEmpty s <;> simp [hs]

/-- The transmitter is idle behind a stop bit that no frame follows. -/
theorem stop_next (h : AtBit s.tx 9) (ht : txBitTick s = true) (hf : frameStart s = none) :
    (next s i).tx.state = .idle ∧ (next s i).tx.out = true := by
  rw [state_next, out_next]
  generalize h9 : 9 = k at h
  cases h with
  | start => cases h9
  | data => omega
  | stop hs ho =>
    rw [frameStart, ht, hs] at hf
    rw [txFsm, ht, hs]
    revert hf
    cases txFifoEmpty s <;> simp [ho]

/-! ## One frame over time -/

variable {s₀ : Uart} {ins : ℕ → UartIn} {d : BitVec 16} {n : ℕ}

/-- One more cycle. -/
theorem runFrom_succ (s₀ : Uart) (ins : ℕ → UartIn) (n : ℕ) :
    runFrom s₀ ins (n + 1) = next (runFrom s₀ ins n) (ins n) := rfl

/-- **Frame rule.** Behind cycle `t`, in which a frame starts, whatever a bit tick moves on to the
next bit holds of bit `j / P` after `j` cycles, `P` being the cycles of a bit. -/
theorem frame_run {Q : ℕ → ℕ → Prop} {t : ℕ} (h0 : Q (t + 1) 0)
    (htick : txBitTick (runFrom s₀ ins t) = true)
    (hdiv : ∀ u < n, (runFrom s₀ ins u).baudDiv = d)
    (hstep : ∀ u k, t + 1 + k * (16 * tickPeriod d) ≤ u → Q u k →
      (txBitTick (runFrom s₀ ins u) = true →
        k < 9 ∧ u + 1 = t + 1 + (k + 1) * (16 * tickPeriod d)) →
      Q (u + 1) (k + (txBitTick (runFrom s₀ ins u)).toNat))
    (j : ℕ) (hj : j < 10 * (16 * tickPeriod d)) (hn : t + 1 + j ≤ n) :
    Q (t + 1 + j) (j / (16 * tickPeriod d)) ∧
      bitTickTime (tickPeriod d) (runFrom s₀ ins (t + 1 + j)) (t + 1 + j) + 1 =
        t + 1 + (j / (16 * tickPeriod d) + 1) * (16 * tickPeriod d) := by
  have hP := bitPeriod_pos d
  induction j with
  | zero =>
    rw [Nat.zero_div]
    refine ⟨h0, ?_⟩
    have hnext := bitTickTime_next (s := runFrom s₀ ins t) (i := ins t) t
    rw [htick, if_pos rfl, hdiv t (by omega)] at hnext
    rw [Nat.add_zero, runFrom_succ, hnext]
    omega
  | succ j ih =>
    obtain ⟨hQ, htime⟩ := ih (by omega) (by omega)
    have hlo := Nat.div_mul_le_self j (16 * tickPeriod d)
    have hnext := bitTickTime_next (s := runFrom s₀ ins (t + 1 + j)) (i := ins (t + 1 + j))
      (t + 1 + j)
    rw [hdiv (t + 1 + j) (by omega)] at hnext
    have hsucc : (j / (16 * tickPeriod d) + 1) * (16 * tickPeriod d) =
        j / (16 * tickPeriod d) * (16 * tickPeriod d) + 16 * tickPeriod d := Nat.succ_mul _ _
    have hsucc' : (j / (16 * tickPeriod d) + 1 + 1) * (16 * tickPeriod d) =
        (j / (16 * tickPeriod d) + 1) * (16 * tickPeriod d) + 16 * tickPeriod d := Nat.succ_mul _ _
    cases hbit : txBitTick (runFrom s₀ ins (t + 1 + j))
    · -- No bit tick, so the bit is not over yet.
      have hlater := lt_bitTickTime (tickPeriod_pos d) hbit (t + 1 + j)
      have hdivj : (j + 1) / (16 * tickPeriod d) = j / (16 * tickPeriod d) := by
        apply Nat.div_eq_of_lt_le <;> omega
      rw [hbit, if_neg Bool.false_ne_true] at hnext
      have hQ' := hstep (t + 1 + j) _ (by omega) hQ (fun h => by rw [hbit] at h; cases h)
      rw [hbit] at hQ'
      rw [hdivj]
      refine ⟨hQ', ?_⟩
      show bitTickTime _ (next (runFrom s₀ ins (t + 1 + j)) (ins (t + 1 + j))) (t + 1 + j + 1) + 1
        = _
      rw [hnext, htime]
    · have hnow := bitTickTime_of_bitTick hbit (tickPeriod d) (t + 1 + j)
      rw [hnow] at htime
      have hk : j / (16 * tickPeriod d) < 9 := by
        by_contra hge
        have hmul := Nat.mul_le_mul_right (16 * tickPeriod d)
          (show 10 ≤ j / (16 * tickPeriod d) + 1 by omega)
        omega
      have hdivj : (j + 1) / (16 * tickPeriod d) = j / (16 * tickPeriod d) + 1 := by
        apply Nat.div_eq_of_lt_le <;> omega
      rw [hbit, if_pos rfl] at hnext
      have hQ' := hstep (t + 1 + j) _ (by omega) hQ (fun _ => ⟨hk, htime⟩)
      rw [hbit] at hQ'
      rw [hdivj]
      refine ⟨hQ', ?_⟩
      show bitTickTime _ (next (runFrom s₀ ins (t + 1 + j)) (ins (t + 1 + j))) (t + 1 + j + 1) + 1
        = _
      rw [hnext]
      omega

/-- The byte of the frame whose start bit begins in cycle `a`, as the line carries it. -/
def driven (s₀ : Uart) (ins : ℕ → UartIn) (P a : ℕ) : BitVec 8 :=
  byteOf fun k => (runFrom s₀ ins (a + (k + 1) * P)).tx.out

/-- The bits of a driven byte, a bit time apart. -/
theorem getLsbD_driven {P a k : ℕ} (hk : k < 8) :
    (driven s₀ ins P a).getLsbD k = (runFrom s₀ ins (a + (k + 1) * P)).tx.out :=
  getLsbD_byteOf _ hk

/-- Behind a start the transmitter is in bit `j / P` after `j` cycles, and the line has kept its
level since that bit began. -/
theorem atBit_run {t : ℕ} (hf : frameStart (runFrom s₀ ins t) = some b)
    (hdiv : ∀ u < n, (runFrom s₀ ins u).baudDiv = d) (j : ℕ)
    (hj : j < 10 * (16 * tickPeriod d)) (hn : t + 1 + j ≤ n) :
    (AtBit (runFrom s₀ ins (t + 1 + j)).tx (j / (16 * tickPeriod d)) ∧
      (runFrom s₀ ins (t + 1 + j)).tx.out =
        (runFrom s₀ ins (t + 1 + j / (16 * tickPeriod d) * (16 * tickPeriod d))).tx.out) ∧
      bitTickTime (tickPeriod d) (runFrom s₀ ins (t + 1 + j)) (t + 1 + j) + 1 =
        t + 1 + (j / (16 * tickPeriod d) + 1) * (16 * tickPeriod d) := by
  refine frame_run (Q := fun u k => AtBit (runFrom s₀ ins u).tx k ∧ (runFrom s₀ ins u).tx.out =
    (runFrom s₀ ins (t + 1 + k * (16 * tickPeriod d))).tx.out) ⟨atBit_of_frameStart hf, ?_⟩
    (txBitTick_of_frameStart hf) hdiv (fun u k _ hQ hlast => ?_) j hj hn
  · rw [Nat.zero_mul]
  · refine ⟨hQ.1.next fun h => (hlast h).1, ?_⟩
    cases hbit : txBitTick (runFrom s₀ ins u)
    · rw [runFrom_succ, out_next, txFsm_of_no_tick hbit]
      exact hQ.2
    · rw [(hlast hbit).2]
      rfl

/-- **The line carries the frame**: bit `j / P` of the byte driven, `j` cycles behind the start. -/
theorem out_run {t : ℕ} (hf : frameStart (runFrom s₀ ins t) = some b)
    (hdiv : ∀ u < n, (runFrom s₀ ins u).baudDiv = d) (j : ℕ)
    (hj : j < 10 * (16 * tickPeriod d)) (hn : t + 1 + j ≤ n) :
    (runFrom s₀ ins (t + 1 + j)).tx.out =
      frameBit (driven s₀ ins (16 * tickPeriod d) (t + 1)) (j / (16 * tickPeriod d)) := by
  obtain ⟨⟨hat, hout⟩, -⟩ := atBit_run hf hdiv j hj hn
  generalize j / (16 * tickPeriod d) = k at hat hout
  cases hat with
  | start _ ho => exact ho
  | data hk _ _ => rw [frameBit_data _ hk, getLsbD_driven hk, hout]
  | stop _ ho => exact ho

/-- The transmitter is busy while it is not idle, in a run in which no cycle spoils a frame. -/
theorem busy_of_ne_idle_runFrom (hs : s₀.tx.state = .idle)
    (hok : ∀ u < n, spoils (runFrom s₀ ins u) (ins u) = false) (u : ℕ) (hu : u ≤ n) :
    (runFrom s₀ ins u).tx.state ≠ .idle → (runFrom s₀ ins u).tx.busy = true := by
  induction u with
  | zero => exact fun h => absurd hs h
  | succ u ih => exact busy_of_ne_idle_next (ih (by omega)) (hok u hu)

/-- The byte that the line carries is the one that the frame was started with. -/
theorem driven_eq (hs : s₀.tx.state = .idle)
    (hok : ∀ u < n, spoils (runFrom s₀ ins u) (ins u) = false)
    (hdiv : ∀ u < n, (runFrom s₀ ins u).baudDiv = d) {t : ℕ}
    (hf : frameStart (runFrom s₀ ins t) = some b)
    (hn : t + 1 + 8 * (16 * tickPeriod d) ≤ n) :
    driven s₀ ins (16 * tickPeriod d) (t + 1) = b := by
  have hP := bitPeriod_pos d
  have hinv := busy_of_ne_idle_runFrom hs hok t (by omega)
  have hsends : Sends (runFrom s₀ ins (t + 1)) b 0 := sends_of_frameStart hinv hf (hok t (by omega))
  apply BitVec.eq_of_getLsbD_eq
  intro k hk
  have hend : (k + 1) * (16 * tickPeriod d) ≤ 8 * (16 * tickPeriod d) := Nat.mul_le_mul_right _ hk
  obtain ⟨hbit, -⟩ := frame_run (Q := fun u k => Sends (runFrom s₀ ins u) b k) hsends
    (txBitTick_of_frameStart hf) hdiv
    (fun u k _ hQ hlast => hQ.next fun h => (hlast h).1) ((k + 1) * (16 * tickPeriod d))
    (by omega) (by omega)
  rw [Nat.mul_div_cancel _ hP] at hbit
  rw [getLsbD_driven hk, hbit.out, frameBit_data b hk]

/-! ## The line over time -/

/-- The frames that start before cycle `n`, each with the cycle in which its start bit begins and
the byte that the line carries, for bits of `P` cycles. -/
def framesSent (s₀ : Uart) (ins : ℕ → UartIn) (P : ℕ) : ℕ → List (ℕ × BitVec 8)
  | 0 => []
  | n + 1 =>
    match frameStart (runFrom s₀ ins n) with
    | some _ => framesSent s₀ ins P n ++ [(n + 1, driven s₀ ins P (n + 1))]
    | none => framesSent s₀ ins P n

/-- The transmitter in cycle `n`, `fs` being the frames sent: it is idle, and they have all ended,
or it is in the last of them. -/
inductive Driving (s₀ : Uart) (ins : ℕ → UartIn) (P n : ℕ) : List (ℕ × BitVec 8) → Prop
  | idle {fs : List (ℕ × BitVec 8)} (hs : (runFrom s₀ ins n).tx.state = .idle)
      (ho : (runFrom s₀ ins n).tx.out = true) (hend : ∀ f ∈ fs, f.1 + 10 * P ≤ n) :
      Driving s₀ ins P n fs
  | frame {fs : List (ℕ × BitVec 8)} {t j : ℕ} {b : BitVec 8}
      (hf : frameStart (runFrom s₀ ins t) = some b) (hn : n = t + 1 + j) (hj : j < 10 * P)
      (hend : ∀ f ∈ fs, f.1 + 10 * P ≤ t + 1) :
      Driving s₀ ins P n (fs ++ [(t + 1, driven s₀ ins P (t + 1))])

variable {fs : List (ℕ × BitVec 8)}

/-- A frame that starts finds the ones before it ended. -/
theorem Driving.ended (h : Driving s₀ ins (16 * tickPeriod d) n fs)
    (hdiv : ∀ u < n, (runFrom s₀ ins u).baudDiv = d)
    (hf : frameStart (runFrom s₀ ins n) = some b) :
    ∀ f ∈ fs, f.1 + 10 * (16 * tickPeriod d) ≤ n + 1 := by
  intro f hmem
  cases h with
  | idle _ _ hend => exact Nat.le_succ_of_le (hend f hmem)
  | @frame fs t j b' hf' hn hj hend =>
    obtain ⟨⟨hat, -⟩, htime⟩ := atBit_run hf' hdiv j hj hn.ge
    rw [← hn] at hat htime
    have htick := txBitTick_of_frameStart hf
    rw [bitTickTime_of_bitTick htick] at htime
    -- Only the end of the stop bit starts another frame.
    have hlast : 9 ≤ j / (16 * tickPeriod d) := by
      by_contra hlt
      rw [frameStart_of_atBit hat fun _ => by omega] at hf
      cases hf
    have hmul : 10 * (16 * tickPeriod d) ≤ (j / (16 * tickPeriod d) + 1) * (16 * tickPeriod d) :=
      Nat.mul_le_mul_right _ (Nat.succ_le_succ hlast)
    rcases List.mem_append.mp hmem with hmem | hmem
    · have hend := hend f hmem
      omega
    · obtain rfl := List.mem_singleton.mp hmem
      show t + 1 + _ ≤ _
      omega

/-- **Step.** The transmitter is idle or in its last frame for one more cycle. -/
theorem Driving.next (h : Driving s₀ ins (16 * tickPeriod d) n fs)
    (hdiv : ∀ u < n + 1, (runFrom s₀ ins u).baudDiv = d)
    (hfs : fs = framesSent s₀ ins (16 * tickPeriod d) n) :
    Driving s₀ ins (16 * tickPeriod d) (n + 1)
      (framesSent s₀ ins (16 * tickPeriod d) (n + 1)) := by
  have hP := bitPeriod_pos d
  have hdiv' : ∀ u < n, (runFrom s₀ ins u).baudDiv = d := fun u hu => hdiv u (by omega)
  rw [framesSent, ← hfs]
  rcases hf : frameStart (runFrom s₀ ins n) with _ | b
  · cases h with
    | idle hs ho hend =>
      obtain ⟨hs', ho'⟩ := idle_next (i := ins n) hs ho hf
      exact .idle hs' ho' fun f hmem => Nat.le_succ_of_le (hend f hmem)
    | @frame fs t j b hf' hn hj hend =>
      rcases Nat.lt_or_ge (j + 1) (10 * (16 * tickPeriod d)) with hlt | hge
      · exact .frame (j := j + 1) hf' (by omega) hlt hend
      · -- The stop bit ends in this cycle.
        obtain ⟨⟨hat, -⟩, htime⟩ := atBit_run hf' hdiv' j hj hn.ge
        have hlast : j / (16 * tickPeriod d) = 9 := by
          apply Nat.div_eq_of_lt_le <;> omega
        rw [hlast] at hat htime
        rw [← hn] at hat htime
        have htick : txBitTick (runFrom s₀ ins n) = true := by
          by_contra hne
          have hlater := lt_bitTickTime (tickPeriod_pos d) (Bool.eq_false_of_not_eq_true hne) n
          omega
        obtain ⟨hs', ho'⟩ := stop_next (i := ins n) hat htick hf
        refine .idle hs' ho' fun f hmem => ?_
        rcases List.mem_append.mp hmem with hmem | hmem
        · have hend := hend f hmem
          omega
        · obtain rfl := List.mem_singleton.mp hmem
          show t + 1 + _ ≤ _
          omega
  · exact .frame (j := 0) hf (by omega) (by omega) (h.ended hdiv' hf)

/-- The level of the line is that of the frames sent. -/
theorem Driving.out (h : Driving s₀ ins (16 * tickPeriod d) n fs)
    (hdiv : ∀ u < n, (runFrom s₀ ins u).baudDiv = d) :
    (runFrom s₀ ins n).tx.out = line (16 * tickPeriod d) fs n := by
  cases h with
  | idle _ ho hend =>
    have hline : line (16 * tickPeriod d) (fs ++ []) n = line (16 * tickPeriod d) [] n :=
      line_append_of_ended hend
    rw [List.append_nil] at hline
    rw [ho, hline, line_nil]
  | @frame fs t j b hf hn hj hend =>
    have hP := bitPeriod_pos d
    have hlo := Nat.div_mul_le_self j (16 * tickPeriod d)
    have hhi : j < (j / (16 * tickPeriod d) + 1) * (16 * tickPeriod d) := by
      rw [Nat.add_one_mul]
      exact Nat.lt_div_mul_add hP
    have hk : j / (16 * tickPeriod d) < 10 := Nat.div_lt_of_lt_mul (by omega)
    rw [line_append_of_ended fun f hmem => by have h := hend f hmem; omega,
      line_cons_bit (k := j / (16 * tickPeriod d)) _ _ hk (by omega) (by omega), hn]
    exact out_run hf hdiv j hj hn.ge

/-- The transmitter is idle and the line high. -/
structure TxQuiet (s : Uart) : Prop where
  state : s.tx.state = .idle
  out : s.tx.out = true

/-- **Run lemma.** The line is driven as the frames say. -/
theorem driving_run (hq : TxQuiet s₀) (hdiv : ∀ u < n, (runFrom s₀ ins u).baudDiv = d) (t : ℕ)
    (ht : t ≤ n) : Driving s₀ ins (16 * tickPeriod d) t
      (framesSent s₀ ins (16 * tickPeriod d) t) := by
  induction t with
  | zero => exact .idle hq.state hq.out fun f hf => nomatch hf
  | succ t ih => exact (ih (by omega)).next (fun u hu => hdiv u (by omega)) rfl

/-- No frame begins before the one ahead of it has ended. -/
theorem spaced_framesSent (hq : TxQuiet s₀) (hdiv : ∀ u < n, (runFrom s₀ ins u).baudDiv = d)
    (t : ℕ) (ht : t ≤ n) :
    Spaced (16 * tickPeriod d) 0 (framesSent s₀ ins (16 * tickPeriod d) t) := by
  induction t with
  | zero => trivial
  | succ t ih =>
    have hspaced := ih (by omega)
    rw [framesSent]
    rcases hf : frameStart (runFrom s₀ ins t) with _ | b
    · exact hspaced
    · have hdriving := driving_run hq hdiv t (by omega)
      exact hspaced.append (Nat.zero_le _)
        (hdriving.ended (fun u hu => hdiv u (by omega)) hf)

/-- Frames that start later do not change the line. -/
theorem line_framesSent (P : ℕ) {t : ℕ} (h : t ≤ n) :
    line P (framesSent s₀ ins P n) t = line P (framesSent s₀ ins P t) t := by
  induction n, h using Nat.le_induction with
  | base => rfl
  | succ n hle ih =>
    rw [framesSent]
    rcases frameStart (runFrom s₀ ins n) with _ | b
    · exact ih
    · rw [← ih]
      exact line_append_of_lt _ (Nat.lt_succ_of_le hle)

/-- **What goes over a serial line** in `n` cycles from the state `s₀`, with divisor `d`: a quiet
receiver queues the bytes of the frames on its line, in order; a quiet transmitter drives one frame
for each start, with the byte it was started with unless a cycle spoils one; and with its output as
input the receiver returns the bytes sent. -/
structure LineExact (d : BitVec 16) (s₀ : Uart) (ins : ℕ → UartIn) (n : ℕ) : Prop where
  received : RxQuiet d s₀ → ∀ frames, Spaced (16 * tickPeriod d) 0 frames →
    (∀ t < n, (ins t).rx = line (16 * tickPeriod d) frames t) → (∀ t < n, Keeps s₀ ins t) →
    Received (tickPeriod d) frames (bytesQueued s₀ ins n) n
  transmitted : TxQuiet s₀ →
    Spaced (16 * tickPeriod d) 0 (framesSent s₀ ins (16 * tickPeriod d) n) ∧
    ∀ t ≤ n, (runFrom s₀ ins t).tx.out =
      line (16 * tickPeriod d) (framesSent s₀ ins (16 * tickPeriod d) n) t
  started : TxQuiet s₀ → (∀ t < n, spoils (runFrom s₀ ins t) (ins t) = false) →
    ∀ t b, frameStart (runFrom s₀ ins t) = some b → t + 1 + 8 * (16 * tickPeriod d) ≤ n →
      driven s₀ ins (16 * tickPeriod d) (t + 1) = b
  returned : RxQuiet d s₀ → TxQuiet s₀ → (∀ t < n, (ins t).rx = (runFrom s₀ ins t).tx.out) →
    (∀ t < n, Keeps s₀ ins t) →
    Received (tickPeriod d) (framesSent s₀ ins (16 * tickPeriod d) n) (bytesQueued s₀ ins n) n

/-- **Receive decodes transmit**, for every divisor, whatever the accesses are while it stays. -/
theorem lineExact (hdiv : ∀ t < n, (runFrom s₀ ins t).baudDiv = d) : LineExact d s₀ ins n := by
  have hline : TxQuiet s₀ → ∀ t ≤ n, (runFrom s₀ ins t).tx.out =
      line (16 * tickPeriod d) (framesSent s₀ ins (16 * tickPeriod d) n) t := by
    intro hq t ht
    rw [line_framesSent _ ht]
    exact (driving_run hq hdiv t ht).out fun u hu => hdiv u (by omega)
  constructor
  case received =>
    intro hq frames hspaced hrx hkeep
    exact received hq hspaced hdiv hrx hkeep
  case transmitted =>
    intro hq
    exact ⟨spaced_framesSent hq hdiv n (le_refl n), hline hq⟩
  case started =>
    intro hq hok t b hf hn
    exact driven_eq hq.state hok hdiv hf hn
  case returned =>
    intro hrq htq hloop hkeep
    refine received hrq (spaced_framesSent htq hdiv n (le_refl n)) hdiv (fun t ht => ?_) hkeep
    rw [hloop t ht, hline htq t ht.le]

/-- Two bytes go through the FIFO behind reset, and the line comes back. -/
def loopbackBytes (n : ℕ) : UartIn :=
  if n = 0 then writeIn 2#3 0x01#32
  else if n = 1 then writeIn 0#3 0x41#32
  else if n = 2 then writeIn 0#3 0x42#32
  else { idleIn with rx := line 16 [(16, 0x41#8), (176, 0x42#8)] n }

/-- Both come in, back to back. -/
theorem lineExact_loopbackBytes :
    LineExact 1#16 (reset zeroUart) loopbackBytes 340 ∧
      framesSent (reset zeroUart) loopbackBytes 16 340 = [(16, 0x41#8), (176, 0x42#8)] ∧
      bytesQueued (reset zeroUart) loopbackBytes 340 = [0x41#8, 0x42#8] := by
  have hexact : LineExact 1#16 (reset zeroUart) loopbackBytes 340 := lineExact (by decide +kernel)
  have hsent : framesSent (reset zeroUart) loopbackBytes 16 340 =
      [(16, 0x41#8), (176, 0x42#8)] := by decide +kernel
  have hkeep : ∀ t < 340, rxFifoClearRequest (loopbackBytes t) = false ∧
      overruns (runFrom (reset zeroUart) loopbackBytes t) (loopbackBytes t) = false := by
    decide +kernel
  have hreceived := hexact.returned ⟨rfl, rfl, rfl, by decide⟩ ⟨rfl, rfl⟩ (by decide +kernel) hkeep
  rw [show 16 * tickPeriod 1#16 = 16 from rfl, hsent] at hreceived
  refine ⟨hexact, hsent, ?_⟩
  exact hreceived.inOrder.eq_of_length_le (hreceived.complete 2 (by decide)).length_le

end Uart

end Synapse32
