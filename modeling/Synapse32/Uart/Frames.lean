import Synapse32.Uart.TxQueue
import Synapse32.Lib.SerialLine

/-! # UART frames

What the transmitter drives from a start bit on, and which register writes reach the byte that it
is sending. -/

namespace Synapse32

namespace Uart

open SerialLine

variable {s : Uart} {i : UartIn} {b : BitVec 8} {k : ℕ}

/-! ## Refused writes -/

/-- A busy transmitter takes no held byte. -/
theorem not_holdingTaken_of_busy (h : s.tx.busy = true) : holdingTaken s i = false := by
  simp [holdingTaken, h]

/-- A transmitter with a byte to start takes no other. -/
theorem not_holdingTaken_of_startPending (h : s.tx.startPending = true) :
    holdingTaken s i = false := by
  simp [holdingTaken, h]

/-! ## The bits of a frame -/

/-- The transmitter is in bit `k` of a frame. -/
inductive AtBit (t : UartTx) : ℕ → Prop
  | start (hs : t.state = .start) (ho : t.out = false) : AtBit t 0
  | data {k : ℕ} (hk : k < 8) (hs : t.state = .data) (hc : t.bitCount.toNat = k + 1) :
      AtBit t (k + 1)
  | stop (hs : t.state = .stop) (ho : t.out = true) : AtBit t 9

/-- A transmitter at a bit of a frame is not idle. -/
theorem AtBit.ne_idle {t : UartTx} (h : AtBit t k) : t.state ≠ .idle := by
  cases h with
  | start hs => rw [hs]; decide
  | data _ hs => rw [hs]; decide
  | stop hs => rw [hs]; decide

/-- The bit is told by state, count and line alone. -/
theorem AtBit.of_eq {t t' : UartTx} (h : AtBit t k) (hs : t'.state = t.state)
    (hc : t'.bitCount = t.bitCount) (ho : t'.out = t.out) : AtBit t' k := by
  cases h with
  | start h₁ h₂ => exact .start (hs.trans h₁) (ho.trans h₂)
  | data hk h₁ h₂ => exact .data hk (hs.trans h₁) ((congrArg BitVec.toNat hc).trans h₂)
  | stop h₁ h₂ => exact .stop (hs.trans h₁) (ho.trans h₂)

/-- Without a bit tick the state machine stands. -/
theorem txFsm_of_no_tick (h : txBitTick s = false) : txFsm s = s.tx := by
  rw [txFsm, h, if_neg Bool.false_ne_true]

/-- A bit tick within a frame moves to the next bit and drives it, from the byte being sent. -/
theorem txFsm_of_tick (h : txBitTick s = true) (hk : k < 9) (ha : AtBit s.tx k) :
    AtBit (txFsm s) (k + 1) ∧ (txFsm s).out = frameBit s.tx.data (k + 1) ∧
      (txFsm s).data = s.tx.data ∧ (txFsm s).busy = s.tx.busy := by
  rw [txFsm, h, if_pos rfl]
  cases ha with
  | start hs ho =>
    rw [hs]
    refine ⟨.data (by decide) rfl rfl, ?_, rfl, rfl⟩
    rw [frameBit_data _ (by decide)]
  | @data k hk hs hc =>
    rw [hs]
    have hlt : s.tx.bitCount < 8#4 ↔ k + 1 < 8 := by rw [BitVec.lt_def, hc]; rfl
    show AtBit (if _ then _ else _) _ ∧ (if _ then _ else _ : UartTx).out = _ ∧
      (if _ then _ else _ : UartTx).data = _ ∧ (if _ then _ else _ : UartTx).busy = _
    -- Another data bit, or the stop bit behind the eighth.
    by_cases hlast : k + 1 < 8
    · rw [if_pos (hlt.mpr hlast)]
      have hbit : (s.tx.bitCount.extractLsb' 0 3).toNat = k + 1 := by
        rw [BitVec.extractLsb'_toNat, hc]
        simp
        omega
      refine ⟨.data hlast hs ?_, ?_, rfl, rfl⟩
      · show (s.tx.bitCount + 1#4).toNat = _
        rw [BitVec.toNat_add, hc]
        simp
        omega
      · rw [frameBit_data _ hlast, hbit]
    · rw [if_neg (hlt.not.mpr hlast)]
      obtain rfl : k = 7 := by omega
      exact ⟨.stop rfl rfl, (frameBit_stop _ (le_refl 9)).symm, rfl, rfl⟩
  | stop => omega

/-- A frame starts in its start bit. -/
theorem atBit_of_frameStart (h : frameStart s = some b) : AtBit (next s i).tx 0 := by
  suffices hfsm : (txFsm s).state = .start ∧ (txFsm s).out = false from
    .start (state_next.trans hfsm.1) (out_next.trans hfsm.2)
  rw [frameStart] at h
  rw [txFsm]
  split at h
  next htick =>
    rw [if_pos htick]
    split at h
    next hs =>
      rw [hs]
      split at h
      next hp => simp [hp]
      next hp =>
        split at h
        next he => simp [hp, he]
        next => cases h
    next hs =>
      rw [hs]
      split at h
      next he => simp [he]
      next => cases h
    next => cases h
  next => cases h

/-- **Step.** Within a frame a bit tick moves to the next bit, and nothing else does. -/
theorem AtBit.next (ha : AtBit s.tx k) (h : txBitTick s = true → k < 9) :
    AtBit (Uart.next s i).tx (k + (txBitTick s).toNat) := by
  refine AtBit.of_eq ?_ state_next bitCount_next out_next
  cases ht : txBitTick s
  · rw [txFsm_of_no_tick ht]
    exact ha
  · exact (txFsm_of_tick ht (h ht) ha).1

/-! ## A byte being sent -/

/-- The transmitter is in bit `k` of a frame of byte `b`. -/
structure Sends (s : Uart) (b : BitVec 8) (k : ℕ) : Prop where
  atBit : AtBit s.tx k
  data : s.tx.data = b
  busy : s.tx.busy = true
  out : s.tx.out = frameBit b k

/-- **Step.** Register writes leave a frame alone: `tx_busy` refuses the holding register, and a
clear reaches a pending byte only while the transmitter is idle. -/
theorem Sends.next (h : Sends s b k) (hk : txBitTick s = true → k < 9) :
    Sends (Uart.next s i) b (k + (txBitTick s).toNat) := by
  have hidle : (s.tx.state == .idle) = false := beq_false_of_ne h.atBit.ne_idle
  have hdata : (Uart.next s i).tx.data = (txFsm s).data := by
    rw [data_next, not_holdingTaken_of_busy h.busy, if_neg Bool.false_ne_true]
  have hbusy : (Uart.next s i).tx.busy = (txFsm s).busy := by
    rw [busy_next, not_holdingTaken_of_busy h.busy, hidle, Bool.and_false]
    rfl
  refine ⟨h.atBit.next hk, ?_, ?_, ?_⟩
  · rw [hdata, ← h.data]
    cases ht : txBitTick s
    · rw [txFsm_of_no_tick ht]
    · exact (txFsm_of_tick ht (hk ht) h.atBit).2.2.1
  · rw [hbusy, ← h.busy]
    cases ht : txBitTick s
    · rw [txFsm_of_no_tick ht]
    · exact (txFsm_of_tick ht (hk ht) h.atBit).2.2.2
  · rw [out_next]
    cases ht : txBitTick s
    · rw [txFsm_of_no_tick ht]
      exact h.out
    · rw [(txFsm_of_tick ht (hk ht) h.atBit).2.1, h.data]
      rfl

/-! ## The start of a frame -/

/-- The edge that starts a frame spoils it: the byte in the holding register is cleared or was not
marked busy, or the byte from the FIFO is overwritten by another one. -/
def spoils (s : Uart) (i : UartIn) : Bool :=
  txBitTick s && s.tx.state == .idle &&
    if s.tx.startPending then txFifoCleared i || !s.tx.busy
    else !txFifoEmpty s && holdingTaken s i && writeByte i != s.tx.fifo s.tx.fifoHead

/-- An edge that starts a frame, by where the byte comes from. -/
theorem frameStart_cases (h : frameStart s = some b) :
    (s.tx.state = .idle ∧ s.tx.startPending = true ∧ b = s.tx.data ∧
      (txFsm s).data = b ∧ (txFsm s).busy = s.tx.busy) ∨
    (s.tx.state = .idle ∧ s.tx.startPending = false ∧ txFifoEmpty s = false ∧
      b = s.tx.fifo s.tx.fifoHead ∧ (txFsm s).data = b ∧ (txFsm s).busy = true) ∨
    (s.tx.state = .stop ∧ (txFsm s).data = b ∧ (txFsm s).busy = s.tx.busy) := by
  rw [frameStart] at h
  rw [txFsm]
  split at h
  next htick =>
    rw [if_pos htick]
    split at h
    next hs =>
      rw [hs]
      split at h
      next hp =>
        -- A byte written with the FIFOs off.
        obtain rfl := Option.some.inj h
        exact .inl ⟨rfl, hp, rfl, by simp [hp], by simp [hp]⟩
      next hp =>
        split at h
        next he =>
          obtain rfl := Option.some.inj h
          exact .inr (.inl ⟨rfl, by simpa using hp, by simpa using he, rfl, by simp [hp, he],
            by simp [hp, he]⟩)
        next => cases h
    next hs =>
      rw [hs]
      split at h
      next he =>
        obtain rfl := Option.some.inj h
        exact .inr (.inr ⟨rfl, by simp [he], by simp [he]⟩)
      next => cases h
    next => cases h
  next => cases h

/-- A frame begins at a bit tick. -/
theorem txBitTick_of_frameStart (h : frameStart s = some b) : txBitTick s = true := by
  rw [frameStart] at h
  split at h
  · assumption
  · cases h

/-- **A frame starts right exactly if its edge does not spoil it**, in a transmitter that is busy
whenever it is not idle. -/
theorem starts_iff (hinv : s.tx.state ≠ .idle → s.tx.busy = true) (h : frameStart s = some b) :
    ((next s i).tx.data = b ∧ (next s i).tx.busy = true) ↔ spoils s i = false := by
  have htick := txBitTick_of_frameStart h
  rcases frameStart_cases h with ⟨hs, hp, -, hdata, hbusy⟩ | ⟨hs, hp, he, rfl, hdata, hbusy⟩ |
    ⟨hs, hdata, hbusy⟩
  · rw [data_next, busy_next, not_holdingTaken_of_startPending hp, hdata, hbusy, spoils, htick, hs,
      hp]
    cases txFifoCleared i <;> cases s.tx.busy <;> simp
  · rw [data_next, busy_next, hdata, hbusy, spoils, htick, hs, hp, he]
    cases holdingTaken s i <;> simp
  · have hbusy' : s.tx.busy = true := hinv (by rw [hs]; decide)
    rw [data_next, busy_next, not_holdingTaken_of_busy hbusy', hdata, hbusy, hbusy', spoils, hs]
    simp

/-- Only an idle transmitter that starts a frame spoils it. -/
theorem frameStart_of_spoils (h : spoils s i = true) :
    s.tx.state = .idle ∧ ∃ b, frameStart s = some b := by
  simp only [spoils, Bool.and_eq_true, beq_iff_eq] at h
  obtain ⟨⟨htick, hs⟩, h⟩ := h
  refine ⟨hs, ?_⟩
  rw [frameStart, htick, hs]
  cases hp : s.tx.startPending
  · rw [hp, if_neg Bool.false_ne_true, Bool.and_eq_true, Bool.and_eq_true] at h
    simp [h.1.1]
  · exact ⟨s.tx.data, rfl⟩

/-- A frame that starts right is sent from its start bit on. -/
theorem sends_of_frameStart (hinv : s.tx.state ≠ .idle → s.tx.busy = true)
    (h : frameStart s = some b) (hok : spoils s i = false) : Sends (next s i) b 0 := by
  obtain ⟨hdata, hbusy⟩ := (starts_iff hinv h).mpr hok
  have hat : AtBit (next s i).tx 0 := atBit_of_frameStart h
  refine ⟨hat, hdata, hbusy, ?_⟩
  cases hat with
  | start _ ho => exact ho

/-- **Step.** The transmitter stays busy while it is not idle. -/
theorem busy_of_ne_idle_next (hinv : s.tx.state ≠ .idle → s.tx.busy = true)
    (hok : spoils s i = false) (hs : (next s i).tx.state ≠ .idle) :
    (next s i).tx.busy = true := by
  rcases hf : frameStart s with _ | b
  · -- No frame starts, so the transmitter was in one before.
    have hbefore : s.tx.state ≠ .idle ∧ (txFsm s).busy = s.tx.busy := by
      rw [state_next, txFsm] at hs
      rw [frameStart] at hf
      rw [txFsm]
      revert hs hf
      cases txBitTick s
      · exact fun hs _ => ⟨hs, rfl⟩
      · cases hst : s.tx.state
        · cases s.tx.startPending <;> cases txFifoEmpty s <;> simp [hst]
        · simp
        · simp only [if_true]
          split <;> simp
        · cases txFifoEmpty s <;> simp
    have hbusy := hinv hbefore.1
    rw [busy_next, not_holdingTaken_of_busy hbusy, beq_false_of_ne hbefore.1, Bool.and_false,
      hbefore.2]
    exact hbusy
  · exact ((starts_iff hinv hf).mpr hok).2

/-! ## Over runs -/

variable {m : UartPowerOn} {ins : ℕ → UartIn}

/-- **Run lemma.** While no frame is spoiled, a transmitter that is not idle is busy. -/
theorem busy_of_ne_idle_run (h : ∀ n, spoils (run m ins n) (ins n) = false) (n : ℕ) :
    (run m ins n).tx.state ≠ .idle → (run m ins n).tx.busy = true := by
  induction n with
  | zero => exact fun hs => absurd rfl hs
  | succ n ih => exact busy_of_ne_idle_next ih (h n)

/-- The bit ticks in the `j` cycles behind cycle `t`. -/
def bitTicks (m : UartPowerOn) (ins : ℕ → UartIn) (t j : ℕ) : ℕ :=
  Nat.count (fun k => txBitTick (run m ins (t + 1 + k)) = true) j

/-- One more cycle of bit ticks. -/
theorem bitTicks_succ (t j : ℕ) : bitTicks m ins t (j + 1) =
    bitTicks m ins t j + (txBitTick (run m ins (t + 1 + j))).toNat := by
  rw [bitTicks, Nat.count_succ, ← bitTicks]
  cases txBitTick (run m ins (t + 1 + j)) <;> rfl

/-- A byte that is being sent behind cycle `t` is sent bit by bit, to the end of its stop bit. -/
theorem sends_run {t : ℕ} (h : Sends (run m ins (t + 1)) b 0) (j : ℕ)
    (hj : bitTicks m ins t j ≤ 9) :
    Sends (run m ins (t + 1 + j)) b (bitTicks m ins t j) := by
  induction j with
  | zero => exact h
  | succ j ih =>
    rw [bitTicks_succ] at hj ⊢
    refine (ih (by omega)).next fun htick => ?_
    rw [htick, Bool.toNat_true] at hj
    omega

/-- **A frame that starts in cycle `t` with byte `b` is sent right** up to `j` cycles behind: with
the bit ticks counting its bits, the line carries the bit of `b`, the transmitter holds `b`, it is
busy and TEMT reads 0. -/
structure FrameExact (m : UartPowerOn) (ins : ℕ → UartIn) (t : ℕ) (b : BitVec 8) (j : ℕ) :
    Prop where
  out : (run m ins (t + 1 + j)).tx.out = frameBit b (bitTicks m ins t j)
  data : (run m ins (t + 1 + j)).tx.data = b
  busy : (run m ins (t + 1 + j)).tx.busy = true
  temt : (lsr (run m ins (t + 1 + j))).getLsbD 6 = false

/-- While the transmitter is busy TEMT is clear. -/
theorem temt_of_busy (h : s.tx.busy = true) : (lsr s).getLsbD 6 = false := by
  rw [lsr, txTemt, h, Bool.not_true, Bool.false_and, Bool.false_and]
  cases txThre s <;> cases s.rx.oe <;> cases rxDr s <;> rfl

/-- **Every frame is sent right exactly if no cycle spoils one**, whatever the register accesses
are. -/
theorem run_frameExact_iff :
    (∀ t b j, frameStart (run m ins t) = some b → bitTicks m ins t j ≤ 9 →
      FrameExact m ins t b j) ↔
    ∀ n, spoils (run m ins n) (ins n) = false := by
  constructor
  · intro h n
    by_contra hne
    have hsp : spoils (run m ins n) (ins n) = true := Bool.eq_true_of_not_eq_false hne
    obtain ⟨hidle, b, hb⟩ := frameStart_of_spoils hsp
    -- The frame is wrong from its first cycle on.
    have hexact := h n b 0 hb (Nat.zero_le 9)
    exact hne ((starts_iff (fun hs => absurd hidle hs) hb).mp ⟨hexact.data, hexact.busy⟩)
  · intro h t b j hb hj
    have hinv := busy_of_ne_idle_run h t
    have hsends := sends_run (sends_of_frameStart hinv hb (h t)) j hj
    exact ⟨hsends.out, hsends.data, hsends.busy, temt_of_busy hsends.busy⟩

/-- A byte in the holding register, an FCR clear in the cycle in which its frame starts, and a
second byte while the first is on the line. -/
def clearedAtStart : ℕ → UartIn
  | 3 => writeIn 0#3 0x55#32
  | 15 => writeIn 2#3 0x04#32
  | 40 => writeIn 0#3 0xAA#32
  | _ => idleIn

/-- A byte in the FIFO, which is then switched off, and a second byte in the cycle in which the
frame of the first starts. -/
def overwrittenAtStart : ℕ → UartIn
  | 0 => writeIn 2#3 0x01#32
  | 1 => writeIn 0#3 0x55#32
  | 2 => writeIn 2#3 0x00#32
  | 15 => writeIn 0#3 0xAA#32
  | _ => idleIn

/-- **A register write in the cycle of a start reaches the frame.** The frame of `0x55` carries the
second data bit of `0xAA`, once behind a TEMT that reads 1 and once as all of its bits do. -/
theorem frames_corrupted :
    (frameStart (run zeroUart clearedAtStart 15) = some 0x55#8 ∧
      txTemt (run zeroUart clearedAtStart 16) = true ∧
      bitTicks zeroUart clearedAtStart 15 32 = 2 ∧
      ¬ FrameExact zeroUart clearedAtStart 15 0x55#8 32) ∧
    (frameStart (run zeroUart overwrittenAtStart 15) = some 0x55#8 ∧
      bitTicks zeroUart overwrittenAtStart 15 32 = 2 ∧
      ¬ FrameExact zeroUart overwrittenAtStart 15 0x55#8 32) := by
  refine ⟨⟨by decide +kernel, by decide +kernel, by decide +kernel, fun h => ?_⟩,
    by decide +kernel, by decide +kernel, fun h => ?_⟩
  · exact absurd h.out (by decide +kernel)
  · exact absurd h.out (by decide +kernel)

end Uart

end Synapse32
