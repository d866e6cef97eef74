import Synapse32.Rtl.Uart
import Synapse32.Lib.Clocked
import Synapse32.Lib.RingBuffer

/-! # UART transmit queue

The transmit FIFO as a queue: what a THR write adds, what a frame that starts takes, and what an FCR
clear drops, also where they fall in one cycle. -/

namespace Synapse32

namespace Uart

variable {s : Uart} {i : UartIn}

/-- The registers before cycle `n`, from reset. -/
def run (m : UartPowerOn) (ins : ℕ → UartIn) (n : ℕ) : Uart := Clocked.run next (reset m) ins n

/-- One more cycle. -/
theorem run_succ (m : UartPowerOn) (ins : ℕ → UartIn) (n : ℕ) :
    run m ins (n + 1) = next (run m ins n) (ins n) := rfl

/-! ## Accesses -/

/-- A write is to one register. -/
theorem writes_unique {a b : BitVec 3} (h : writes i a = true) (hne : a ≠ b) :
    writes i b = false := by
  rw [writes, Bool.and_eq_true, beq_iff_eq] at h
  rw [writes, h.2, beq_false_of_ne hne, Bool.and_false]

/-- A write of THR selects register 0. -/
theorem writes_of_thrWrite (h : thrWrite s i = true) : writes i 0#3 = true := by
  rw [thrWrite, Bool.and_eq_true] at h
  exact h.1

/-- A write of THR is no clear. -/
theorem not_cleared_of_thrWrite (h : thrWrite s i = true) : txFifoCleared i = false := by
  rw [txFifoCleared, writes_unique (writes_of_thrWrite h) (by decide), Bool.false_and]

/-- A byte that is pushed was written to THR. -/
theorem thrWrite_of_pushed (h : txFifoPushed s i = true) : thrWrite s i = true := by
  rw [txFifoPushed, Bool.and_eq_true, Bool.and_eq_true] at h
  exact h.1.1

/-- A byte that is held was written to THR. -/
theorem thrWrite_of_holdingTaken (h : holdingTaken s i = true) : thrWrite s i = true := by
  simp only [holdingTaken, Bool.and_eq_true] at h
  exact h.1.1.1

/-! ## What a register write may change -/

/-- Register writes never reach the state machine's own registers. -/
theorem txWrite_fsm (t : UartTx) : (txWrite s i t).state = t.state ∧
    (txWrite s i t).bitCount = t.bitCount ∧ (txWrite s i t).out = t.out := by
  rw [txWrite]
  split
  · exact ⟨rfl, rfl, rfl⟩
  · split
    · exact ⟨rfl, rfl, rfl⟩
    · split
      · split <;> exact ⟨rfl, rfl, rfl⟩
      · exact ⟨rfl, rfl, rfl⟩

/-- The register write leaves the state of the FSM. -/
theorem state_next : (next s i).tx.state = (txFsm s).state := (txWrite_fsm (txFsm s)).1

/-- The register write leaves the bit count. -/
theorem bitCount_next : (next s i).tx.bitCount = (txFsm s).bitCount := (txWrite_fsm (txFsm s)).2.1

/-- The register write leaves the line. -/
theorem out_next : (next s i).tx.out = (txFsm s).out := (txWrite_fsm (txFsm s)).2.2

/-- The byte being sent changes under the state machine only where a holding register write is
taken. -/
theorem data_next : (next s i).tx.data =
    if holdingTaken s i then writeByte i else (txFsm s).data := by
  show (txWrite s i (txFsm s)).data = _
  rw [txWrite]
  cases hpush : txFifoPushed s i
  · rw [if_neg Bool.false_ne_true]
    cases holdingTaken s i
    · rw [if_neg Bool.false_ne_true, if_neg Bool.false_ne_true]
      split
      · split <;> rfl
      · rfl
    · rfl
  · -- A write that is pushed finds the FIFO enabled, one that is taken past it does not.
    have hhold : holdingTaken s i = false := by
      simp only [txFifoPushed, Bool.and_eq_true] at hpush
      simp [holdingTaken, hpush.1.2]
    rw [hhold]
    rfl

/-- `tx_busy` changes under the state machine only where a holding register write is taken or a
pending byte is cleared. -/
theorem busy_next : (next s i).tx.busy =
    if holdingTaken s i then true
    else if txFifoCleared i && s.tx.startPending && s.tx.state == .idle then false
    else (txFsm s).busy := by
  show (txWrite s i (txFsm s)).busy = _
  rw [txWrite]
  cases hpush : txFifoPushed s i
  · rw [if_neg Bool.false_ne_true]
    cases holdingTaken s i
    · rw [if_neg Bool.false_ne_true, if_neg Bool.false_ne_true]
      cases txFifoCleared i
      · rfl
      · rw [if_pos rfl, Bool.true_and]
        split <;> rfl
    · rfl
  · have hhold : holdingTaken s i = false := by
      simp only [txFifoPushed, Bool.and_eq_true] at hpush
      simp [holdingTaken, hpush.1.2]
    rw [hhold, not_cleared_of_thrWrite (thrWrite_of_pushed hpush)]
    rfl

/-! ## Frames -/

/-- The byte whose frame starts at this edge: the one in the holding register, or the oldest of the
FIFO. -/
def frameStart (s : Uart) : Option (BitVec 8) :=
  if txBitTick s then
    match s.tx.state with
    | .idle =>
      if s.tx.startPending then some s.tx.data
      else if !txFifoEmpty s then some (s.tx.fifo s.tx.fifoHead)
      else none
    | .stop => if !txFifoEmpty s then some (s.tx.fifo s.tx.fifoHead) else none
    | _ => none
  else none

/-- Without a byte in the holding register, a frame that starts takes its byte from the FIFO. -/
theorem frameStart_eq (h : s.tx.startPending = false) :
    frameStart s = if txFifoPopped s then some (s.tx.fifo s.tx.fifoHead) else none := by
  rw [frameStart, txFifoPopped, h]
  cases txBitTick s
  · rfl
  · cases txFifoEmpty s <;> cases s.tx.state <;> rfl

/-- The byte whose frame starts at this edge, as the registers behind it show: the transmitter has
come into its start bit, it drives the line low, and this is the byte it sends. -/
def startedFrame (s : Uart) (i : UartIn) : Option (BitVec 8) :=
  if s.tx.state != .start && (next s i).tx.state == .start && !(next s i).tx.out then
    some (next s i).tx.data
  else none

/-- The state machine starts the frame of the byte that it finds, and no other. -/
theorem txFsm_start : (if s.tx.state != .start && (txFsm s).state == .start && !(txFsm s).out then
    some (txFsm s).data else none) = frameStart s := by
  rw [txFsm, frameStart]
  cases txBitTick s
  · -- Without a bit tick the state machine stands.
    rw [if_neg Bool.false_ne_true, if_neg Bool.false_ne_true]
    cases s.tx.state <;> rfl
  · cases hs : s.tx.state
    · cases s.tx.startPending <;> cases txFifoEmpty s <;> simp [hs]
    · rfl
    · simp only [if_true]
      split <;> simp [hs]
    · cases txFifoEmpty s <;> simp

/-- **What starts is what the queue gives**, if no write past the FIFO comes in at that edge. -/
theorem startedFrame_eq (h : holdingTaken s i = false) : startedFrame s i = frameStart s := by
  rw [startedFrame, state_next, out_next, data_next, h, if_neg Bool.false_ne_true]
  exact txFsm_start

/-! ## The state machine's share -/

/-- The state machine only reads the memory and the tail. -/
theorem txFsm_fifo : (txFsm s).fifo = s.tx.fifo ∧ (txFsm s).fifoTail = s.tx.fifoTail := by
  rw [txFsm]
  split
  · split
    · split
      · exact ⟨rfl, rfl⟩
      · split <;> exact ⟨rfl, rfl⟩
    · exact ⟨rfl, rfl⟩
    · split <;> exact ⟨rfl, rfl⟩
    · split <;> exact ⟨rfl, rfl⟩
  · exact ⟨rfl, rfl⟩

/-- It moves the head on where it pops. -/
theorem txFsm_fifoHead : (txFsm s).fifoHead =
    if txFifoPopped s then s.tx.fifoHead + 1#4 else s.tx.fifoHead := by
  rw [txFsm, txFifoPopped]
  cases txBitTick s
  · rfl
  · cases s.tx.state
    · cases s.tx.startPending <;> cases txFifoEmpty s <;> rfl
    · cases txFifoEmpty s <;> rfl
    · cases txFifoEmpty s <;> simp only [if_true] <;> split <;> rfl
    · cases txFifoEmpty s <;> rfl

/-- It leaves the holding register empty if it was. -/
theorem txFsm_startPending (h : s.tx.startPending = false) : (txFsm s).startPending = false := by
  rw [txFsm]
  split
  · split
    · split
      · rfl
      · split <;> exact h
    · exact h
    · split <;> exact h
    · split <;> exact h
  · exact h

/-! ## The queue -/

/-- The transmit FIFO. -/
def txRing (t : UartTx) : RingBuffer 4 (BitVec 8) :=
  ⟨t.fifo, t.fifoHead, t.fifoTail, t.fifoCount⟩

/-- The byte that a THR write adds to the FIFO. -/
def txPush (s : Uart) (i : UartIn) : Option (BitVec 8) :=
  if txFifoPushed s i then some (writeByte i) else none

/-- **The FIFO after a cycle**: empty behind a clear, else a queue that has taken and given. -/
theorem txRing_next : txRing (next s i).tx =
    if txFifoCleared i then (txRing s.tx).clear
    else (txRing s.tx).step (txPush s i) (txFifoPopped s) := by
  have hnext : txRing (next s i).tx = ⟨(txWrite s i (txFsm s)).fifo,
    (txWrite s i (txFsm s)).fifoHead, (txWrite s i (txFsm s)).fifoTail,
    txFifoCountNext s i⟩ := rfl
  obtain ⟨hfifo, htail⟩ := txFsm_fifo (s := s)
  rw [hnext, txWrite, txFifoCountNext, txPush]
  cases hpush : txFifoPushed s i
  · rw [if_neg Bool.false_ne_true, if_neg Bool.false_ne_true]
    cases hhold : holdingTaken s i
    · rw [if_neg Bool.false_ne_true]
      cases hclear : txFifoCleared i
      · simp [hfifo, htail, txFsm_fifoHead, RingBuffer.step, txRing]
      · rw [if_pos rfl, if_pos rfl, if_pos rfl]
        split <;> simp [hfifo, RingBuffer.clear, txRing]
    · rw [not_cleared_of_thrWrite (thrWrite_of_holdingTaken hhold)]
      simp [hfifo, htail, txFsm_fifoHead, RingBuffer.step, txRing]
  · rw [not_cleared_of_thrWrite (thrWrite_of_pushed hpush)]
    simp [hfifo, txFsm_fifoHead, RingBuffer.step, txRing]

/-- A push needs room, a pop needs a byte. -/
theorem txRing_allows (hv : (txRing s.tx).Valid) :
    (txRing s.tx).Allows (txPush s i) (txFifoPopped s) := by
  constructor
  · intro hpop
    simp only [txFifoPopped, txFifoEmpty, Bool.and_eq_true, Bool.not_eq_true', beq_eq_false_iff_ne]
      at hpop
    apply Nat.pos_of_ne_zero
    intro h0
    exact hpop.1.2 (BitVec.eq_of_toNat_eq h0)
  · intro hpush _
    rw [txPush, Option.isSome_ite] at hpush
    simp only [txFifoPushed, txFifoFull, Bool.and_eq_true, Bool.not_eq_true', beq_eq_false_iff_ne]
      at hpush
    have hne : (txRing s.tx).count.toNat ≠ 16 := fun h => hpush.2 (BitVec.eq_of_toNat_eq h)
    exact lt_of_le_of_ne hv.le hne

/-- **Step.** The FIFO stays a queue. -/
theorem txRing_valid_next (hv : (txRing s.tx).Valid) : (txRing (next s i).tx).Valid := by
  rw [txRing_next]
  split
  · exact RingBuffer.valid_clear
  · exact hv.step (txRing_allows hv)

/-- **Step.** A cycle hands on, in order, what was queued and what a THR write adds, to the frame
that starts and to the queue. -/
theorem txQueue_next (hv : (txRing s.tx).Valid) (hp : s.tx.startPending = false)
    (hh : holdingTaken s i = false) (hc : txFifoCleared i = false) :
    (txRing s.tx).contents ++ (txPush s i).toList =
      (startedFrame s i).toList ++ (txRing (next s i).tx).contents := by
  have hallows := txRing_allows (i := i) hv
  rw [txRing_next, hc, if_neg Bool.false_ne_true, RingBuffer.contents_step hv hallows,
    startedFrame_eq hh, frameStart_eq hp]
  cases hpop : txFifoPopped s
  · rfl
  · have hhead := RingBuffer.head?_contents (hallows.nonempty hpop)
    obtain ⟨rest, hrest⟩ := List.head?_eq_some_iff.mp hhead
    rw [hrest]
    rfl

/-- **Step.** A clear drops what is queued, but for the byte whose frame starts in its cycle. -/
theorem txQueue_clear (hv : (txRing s.tx).Valid) (hp : s.tx.startPending = false)
    (hh : holdingTaken s i = false) (hc : txFifoCleared i = true) :
    (startedFrame s i).toList <+: (txRing s.tx).contents ∧
      (txRing (next s i).tx).contents = [] := by
  rw [txRing_next, hc, startedFrame_eq hh, frameStart_eq hp]
  refine ⟨?_, rfl⟩
  cases hpop : txFifoPopped s
  · exact List.nil_prefix
  · have hhead := RingBuffer.head?_contents ((txRing_allows (i := i) hv).nonempty hpop)
    obtain ⟨rest, hrest⟩ := List.head?_eq_some_iff.mp hhead
    rw [hrest]
    exact ⟨rest, rfl⟩

/-- Without a write past the FIFO the holding register stays empty. -/
theorem startPending_next (hp : s.tx.startPending = false) (hh : holdingTaken s i = false) :
    (next s i).tx.startPending = false := by
  have hnext : (next s i).tx.startPending = (txWrite s i (txFsm s)).startPending := rfl
  rw [hnext, txWrite, hh, hp]
  split
  · exact txFsm_startPending hp
  · rw [if_neg Bool.false_ne_true]
    split <;> exact txFsm_startPending hp

/-! ## Over runs -/

variable {m : UartPowerOn} {ins : ℕ → UartIn}

/-- The bytes whose frames have started before cycle `n`, in order. -/
def framesStarted (m : UartPowerOn) (ins : ℕ → UartIn) (n : ℕ) : List (BitVec 8) :=
  Clocked.log next (reset m) ins (fun s i => (startedFrame s i).toList) n

/-- The bytes accepted from THR writes before cycle `n`, less those still queued in a cycle in which
a transmit-FIFO clear arrives. -/
def framesDue (m : UartPowerOn) (ins : ℕ → UartIn) (n : ℕ) : List (BitVec 8) :=
  Clocked.kept next (reset m) ins (fun s i => (txPush s i).toList)
    (fun s i => (startedFrame s i).toList) (fun _ i => txFifoCleared i) n

/-- **Run lemma.** The transmit FIFO is valid before every cycle. -/
theorem txRing_valid_run (n : ℕ) : (txRing (run m ins n).tx).Valid :=
  Clocked.run_invariant (P := fun s : Uart => (txRing s.tx).Valid) ⟨Nat.zero_le _, rfl⟩
    (fun _ h => txRing_valid_next h) n

/-- A FIFO that every THR write finds enabled takes them all. -/
theorem holdingTaken_run
    (h : ∀ n, thrWrite (run m ins n) (ins n) = true → fifoEnabled (run m ins n) = true) (n : ℕ) :
    holdingTaken (run m ins n) (ins n) = false := by
  by_contra hne
  have hhold : holdingTaken (run m ins n) (ins n) = true := Bool.eq_true_of_not_eq_false hne
  have hen := h n (thrWrite_of_holdingTaken hhold)
  simp [holdingTaken, hen] at hhold

/-- **Run lemma.** While THR is written with the FIFO on only, no byte waits in the holding
register. -/
theorem startPending_run
    (h : ∀ n, thrWrite (run m ins n) (ins n) = true → fifoEnabled (run m ins n) = true) (n : ℕ) :
    (run m ins n).tx.startPending = false := by
  induction n with
  | zero => rfl
  | succ n ih => exact startPending_next ih (holdingTaken_run h n)

/-- **The transmit queue is exact** in cycle `n`: the frames that have started carry, in order and
each once, the bytes accepted less those a clear dropped, the others being queued; the count is
their number, at most 16, and agrees with head and tail; and a THR write is accepted when fewer than
16 bytes are queued. -/
structure TxQueueExact (m : UartPowerOn) (ins : ℕ → UartIn) (n : ℕ) : Prop where
  order : framesStarted m ins n ++ (txRing (run m ins n).tx).contents = framesDue m ins n
  count : (framesStarted m ins n).length + (run m ins n).tx.fifoCount.toNat =
    (framesDue m ins n).length
  le : (run m ins n).tx.fifoCount.toNat ≤ 16
  pointers : (run m ins n).tx.fifoTail.toNat =
    ((run m ins n).tx.fifoHead.toNat + (run m ins n).tx.fifoCount.toNat) % 16
  accepts : thrWrite (run m ins n) (ins n) = true →
    txPush (run m ins n) (ins n) =
      if (txRing (run m ins n).tx).contents.length < 16 then some (writeByte (ins n)) else none

/-- **The transmit queue is exact in every run** whose THR writes find the FIFO enabled, whatever is
written to FCR, LCR and the divisor and in whatever cycle. -/
theorem run_txQueueExact
    (h : ∀ n, thrWrite (run m ins n) (ins n) = true → fifoEnabled (run m ins n) = true) (n : ℕ) :
    TxQueueExact m ins n := by
  have hv : ∀ k, (txRing (run m ins k).tx).Valid := txRing_valid_run
  have hp := startPending_run h
  have hh := holdingTaken_run h
  -- What has been started and what is queued make up what was due, cleared bytes apart.
  have horder : framesStarted m ins n ++ (txRing (run m ins n).tx).contents =
      framesDue m ins n :=
    Clocked.log_append_held ins (fun s : Uart => (txRing s.tx).contents)
      (fun s i => (txPush s i).toList) (fun s i => (startedFrame s i).toList)
      (fun _ i => txFifoCleared i) n rfl
      (fun k _ hc => txQueue_next (hv k) (hp k) (hh k) hc)
      (fun k _ hc => txQueue_clear (hv k) (hp k) (hh k) hc)
  constructor
  case order => exact horder
  case count =>
    rw [← horder, List.length_append, RingBuffer.length_contents]
    rfl
  case le => exact (hv n).le
  case pointers => exact (hv n).tail_toNat
  case accepts =>
    intro hthr
    have hfull : txFifoFull (run m ins n) = decide ((run m ins n).tx.fifoCount.toNat = 16) := by
      rw [txFifoFull, Bool.eq_iff_iff, beq_iff_eq, decide_eq_true_eq, ← BitVec.toNat_inj]
      rfl
    have hle : (run m ins n).tx.fifoCount.toNat ≤ 16 := (hv n).le
    rw [txPush, txFifoPushed, hthr, h n hthr, hfull, RingBuffer.length_contents]
    change (if _ then _ else _) = if (run m ins n).tx.fifoCount.toNat < 16 then _ else _
    rcases Nat.lt_or_ge (run m ins n).tx.fifoCount.toNat 16 with hlt | hge
    · rw [if_pos hlt, if_pos]
      simp
      omega
    · have hlen : (run m ins n).tx.fifoCount.toNat = 16 := le_antisymm hle hge
      rw [if_neg (Nat.not_lt.mpr hge), if_neg]
      simp [hlen]

/-! ## A run -/

/-- A power-on with empty memories. -/
def zeroUart : UartPowerOn := ⟨fun _ => 0#8, fun _ => 0#8⟩

/-- A cycle without an access, the line idle. -/
def idleIn : UartIn := ⟨0#32, 0#32, false, false, true⟩

/-- A cycle that writes `d` to register `r`. -/
def writeIn (r : BitVec 3) (d : Word) : UartIn :=
  ⟨0x20000000#32 + (r ++ 0#2).setWidth 32, d, true, false, true⟩

/-- A cycle that reads register `r`. -/
def readIn (r : BitVec 3) : UartIn :=
  ⟨0x20000000#32 + (r ++ 0#2).setWidth 32, 0#32, false, true, true⟩

/-- Three bytes are queued and the first one's frame starts in cycle 15; a clear drops the other two
in cycle 20, and a fourth byte comes in behind it. -/
def clearedBurst : ℕ → UartIn
  | 0 => writeIn 2#3 0x01#32
  | 1 => writeIn 0#3 0x41#32
  | 2 => writeIn 0#3 0x42#32
  | 3 => writeIn 0#3 0x43#32
  | 20 => writeIn 2#3 0x05#32
  | 21 => writeIn 0#3 0x44#32
  | _ => idleIn

/-- That run's frames and queue in cycle 24. -/
theorem txQueueExact_clearedBurst :
    TxQueueExact zeroUart clearedBurst 24 ∧ framesStarted zeroUart clearedBurst 24 = [0x41#8] ∧
      framesDue zeroUart clearedBurst 24 = [0x41#8, 0x44#8] := by
  refine ⟨run_txQueueExact (fun n hthr => ?_) 24, by decide +kernel, by decide +kernel⟩
  rcases Nat.lt_or_ge n 22 with hlt | hge
  · have hearly : ∀ n < 22, thrWrite (run zeroUart clearedBurst n) (clearedBurst n) = true →
        fifoEnabled (run zeroUart clearedBurst n) = true := by decide +kernel
    exact hearly n hlt hthr
  · obtain ⟨k, rfl⟩ := Nat.exists_eq_add_of_le' hge
    exact absurd (writes_of_thrWrite hthr) (show writes idleIn 0#3 ≠ true by decide)

end Uart

end Synapse32
