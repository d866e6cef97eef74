import Synapse32.Uart.TxQueue

/-! # UART receive queue

The receive FIFO as a queue: what an arriving byte adds, what an RBR read takes and returns, what an
FCR clear drops, and when an arriving byte finds no room. -/

namespace Synapse32

namespace Uart

variable {s : Uart} {i : UartIn}

/-- The byte that arrives in a cycle: its stop bit is sampled, and is valid. -/
def arrival (s : Uart) : Option (BitVec 8) := if rxArrives s then some s.rx.shift else none

/-- A byte with a valid stop bit arrives in a full FIFO that is not read in that cycle. -/
def overruns (s : Uart) (i : UartIn) : Bool :=
  rxArrives s && !rxFifoClearRequest i && rxFifoFull s && !rxFifoPopRequest s i

/-! ## The state machine's share -/

/-- The state machine changes memory, tail, RBR and OE where a stop bit is sampled. -/
theorem rxFsm_queue (t : UartRx) :
    (rxFsm s i t).fifoHead = t.fifoHead ∧
    (rxFsm s i t).fifo =
      (if rxFifoPushed s i then Function.update t.fifo s.rx.fifoTail s.rx.shift else t.fifo) ∧
    (rxFsm s i t).fifoTail = (if rxFifoPushed s i then s.rx.fifoTail + 1#4 else t.fifoTail) ∧
    (rxFsm s i t).oe = (if overruns s i then true else t.oe) := by
  cases hstop : rxStopTick s
  · -- No stop bit is sampled, so every branch leaves them.
    have hpush : rxFifoPushed s i = false := by rw [rxFifoPushed, rxArrives, hstop]; rfl
    have hover : overruns s i = false := by rw [overruns, rxArrives, hstop]; rfl
    rw [hpush, hover, if_neg Bool.false_ne_true, if_neg Bool.false_ne_true,
      if_neg Bool.false_ne_true, rxFsm]
    rw [rxStopTick] at hstop
    split
    · split <;> exact ⟨rfl, rfl, rfl, rfl⟩
    · split
      · exact ⟨rfl, rfl, rfl, rfl⟩
      · split
        · split <;> exact ⟨rfl, rfl, rfl, rfl⟩
        · exact ⟨rfl, rfl, rfl, rfl⟩
    · split
      · exact ⟨rfl, rfl, rfl, rfl⟩
      · split
        · show _ ∧ (ite _ _ _ : UartRx).fifo = _ ∧ _
          split <;> exact ⟨rfl, rfl, rfl, rfl⟩
        · exact ⟨rfl, rfl, rfl, rfl⟩
    next hst =>
      rw [hst] at hstop
      cases htick : baudTick s
      · exact ⟨rfl, rfl, rfl, rfl⟩
      · have hcount : (s.rx.tickCount == 15#4) = false := by simpa [htick] using hstop
        simp [bne, hcount]
  · have hst : s.rx.state = .stop := by
      rw [rxStopTick, Bool.and_eq_true, Bool.and_eq_true, beq_iff_eq] at hstop
      exact hstop.1.1
    have hcount : s.rx.tickCount = 15#4 ∧ baudTick s = true := by
      rw [rxStopTick, Bool.and_eq_true, Bool.and_eq_true, beq_iff_eq, beq_iff_eq] at hstop
      exact ⟨hstop.1.2, hstop.2⟩
    rw [rxFifoPushed, overruns, rxArrives, hstop, rxFsm, hst, hcount.1, hcount.2]
    cases s.rx.rxSync
    · exact ⟨rfl, rfl, rfl, rfl⟩
    · cases rxFifoClearRequest i
      · cases rxFifoFull s <;> cases rxFifoPopRequest s i <;> exact ⟨rfl, rfl, rfl, rfl⟩
      · exact ⟨rfl, rfl, rfl, rfl⟩

/-! ## The queue -/

/-- The receive FIFO. -/
def rxRing (r : UartRx) : RingBuffer 4 (BitVec 8) :=
  ⟨r.fifo, r.fifoHead, r.fifoTail, r.fifoCount⟩

/-- The byte that arrives and is queued. -/
def rxPush (s : Uart) (i : UartIn) : Option (BitVec 8) :=
  if rxFifoPushed s i then some s.rx.shift else none

/-- What an RBR read returns while DR is 1. -/
def rbrRead (s : Uart) (i : UartIn) : List (BitVec 8) :=
  if rxFifoPopRequest s i then [(readData s i).setWidth 8] else []

/-- A read and an FCR write name different registers. -/
theorem not_clear_of_pop (h : rxFifoPopRequest s i = true) : rxFifoClearRequest i = false := by
  simp only [rxFifoPopRequest, reads, Bool.and_eq_true, beq_iff_eq] at h
  rw [rxFifoClearRequest, writes, h.1.1.2]
  simp

/-- A clear takes the place of a pop. -/
theorem not_pop_of_clear (h : rxFifoClearRequest i = true) : rxFifoPopRequest s i = false := by
  by_contra hne
  have hclear := not_clear_of_pop (Bool.eq_true_of_not_eq_false hne)
  rw [h] at hclear
  cases hclear

/-- An RBR read returns the oldest byte while DR is 1. -/
theorem rbrRead_eq : rbrRead s i =
    if rxFifoPopRequest s i then [s.rx.fifo s.rx.fifoHead] else [] := by
  rw [rbrRead]
  cases hpop : rxFifoPopRequest s i
  · rfl
  · simp only [rxFifoPopRequest, reads, Bool.and_eq_true, Bool.not_eq_true', beq_iff_eq] at hpop
    obtain ⟨⟨⟨⟨hr, hv⟩, hsel⟩, hdlab⟩, hdr⟩ := hpop
    simp [readData, hr, hv, hsel, hdlab, hdr, rxFifoData]

/-- **The FIFO after a cycle**: empty behind a clear, else a queue that has taken and given. -/
theorem rxRing_next : rxRing (next s i).rx =
    if rxFifoClearRequest i then (rxRing s.rx).clear
    else (rxRing s.rx).step (rxPush s i) (rxFifoPopRequest s i) := by
  obtain ⟨hhead, hfifo, htail, -⟩ := rxFsm_queue (s := s) (i := i) (rxClear s i)
  have hnext : rxRing (next s i).rx = ⟨(rxFsm s i (rxClear s i)).fifo,
    rxFifoHeadNext s i (rxFsm s i (rxClear s i)), (rxFsm s i (rxClear s i)).fifoTail,
    rxFifoCountNext s i⟩ := rfl
  rw [hnext, rxFifoHeadNext, hhead, hfifo, htail, rxFifoCountNext, rxPush, rxClear]
  cases hclear : rxFifoClearRequest i
  · rw [if_neg Bool.false_ne_true, if_neg Bool.false_ne_true, if_neg Bool.false_ne_true]
    cases rxFifoPushed s i <;> rfl
  · -- Nothing is pushed or popped in the cycle of a clear.
    have hpush : rxFifoPushed s i = false := by
      rw [rxFifoPushed, hclear, Bool.not_true, Bool.and_false, Bool.false_and]
    rw [hpush, not_pop_of_clear hclear]
    rfl

/-- A push needs room or a read, a read needs a byte. -/
theorem rxRing_allows (hv : (rxRing s.rx).Valid) :
    (rxRing s.rx).Allows (rxPush s i) (rxFifoPopRequest s i) := by
  constructor
  · intro hpop
    simp only [rxFifoPopRequest, rxDr, Bool.and_eq_true, bne_iff_ne] at hpop
    apply Nat.pos_of_ne_zero
    intro h0
    exact hpop.2 (BitVec.eq_of_toNat_eq h0)
  · intro hpush hpop
    rw [rxPush, Option.isSome_ite] at hpush
    rw [rxFifoPushed, hpop, Bool.and_eq_true] at hpush
    have hfull : rxFifoFull s = false := by simpa using hpush.2
    rw [rxFifoFull, beq_eq_false_iff_ne] at hfull
    have hne : (rxRing s.rx).count.toNat ≠ 16 := fun h => hfull (BitVec.eq_of_toNat_eq h)
    exact lt_of_le_of_ne hv.le hne

/-- **Step.** The FIFO stays a queue. -/
theorem rxRing_valid_next (hv : (rxRing s.rx).Valid) : (rxRing (next s i).rx).Valid := by
  rw [rxRing_next]
  split
  · exact RingBuffer.valid_clear
  · exact hv.step (rxRing_allows hv)

/-- **Step.** A cycle hands on, in order, what was queued and what arrives, to the read and to the
queue. -/
theorem rxQueue_next (hv : (rxRing s.rx).Valid) (hc : rxFifoClearRequest i = false) :
    (rxRing s.rx).contents ++ (rxPush s i).toList =
      rbrRead s i ++ (rxRing (next s i).rx).contents := by
  have hallows := rxRing_allows (i := i) hv
  rw [rxRing_next, hc, if_neg Bool.false_ne_true, RingBuffer.contents_step hv hallows, rbrRead_eq]
  cases hpop : rxFifoPopRequest s i
  · rfl
  · have hhead := RingBuffer.head?_contents (hallows.nonempty hpop)
    obtain ⟨rest, hrest⟩ := List.head?_eq_some_iff.mp hhead
    rw [hrest]
    rfl

/-- **Step.** A clear drops what is queued. -/
theorem rxQueue_clear (hc : rxFifoClearRequest i = true) :
    rbrRead s i = [] ∧ (rxRing (next s i).rx).contents = [] := by
  rw [rxRing_next, hc, rbrRead, not_pop_of_clear hc]
  exact ⟨rfl, rfl⟩

/-! ## Overruns -/

/-- What is queued has arrived. -/
theorem arrival_of_push {b : BitVec 8} (h : rxPush s i = some b) : arrival s = some b := by
  rw [rxPush] at h
  split at h
  next hpush =>
    rw [rxFifoPushed, Bool.and_eq_true, Bool.and_eq_true] at hpush
    rw [arrival, if_pos hpush.1.1, h]
  next => cases h

/-- A byte that arrives is queued, or it is dropped by a clear or by an overrun. -/
theorem dropped_cases {b : BitVec 8} (ha : arrival s = some b) (hp : rxPush s i ≠ some b) :
    rxFifoClearRequest i = true ∨ overruns s i = true := by
  rw [arrival] at ha
  split at ha
  next harrives =>
    obtain rfl := Option.some.inj ha
    have hpush : rxFifoPushed s i = false := by
      by_contra hne
      exact hp (if_pos (Bool.eq_true_of_not_eq_false hne))
    rw [rxFifoPushed, harrives] at hpush
    rw [overruns, harrives]
    revert hpush
    cases rxFifoClearRequest i <;> cases rxFifoFull s <;> cases rxFifoPopRequest s i <;> simp
  next => cases ha

/-- **Step.** OE is set by an overrun and cleared by a receive clear. -/
theorem oe_next : (next s i).rx.oe = (overruns s i || (s.rx.oe && !rxFifoClearRequest i)) := by
  show (rxFsm s i (rxClear s i)).oe = _
  rw [(rxFsm_queue (rxClear s i)).2.2.2, rxClear]
  cases overruns s i
  · cases rxFifoClearRequest i <;> simp
  · rfl

/-! ## Over runs -/

variable {m : UartPowerOn} {ins : ℕ → UartIn}

/-- What the RBR reads before cycle `n` that found DR at 1 have returned, in order. -/
def bytesRead (m : UartPowerOn) (ins : ℕ → UartIn) (n : ℕ) : List (BitVec 8) :=
  Clocked.log next (reset m) ins rbrRead n

/-- The bytes queued before cycle `n`, in order of arrival, less those still queued in a cycle in
which a receive clear arrives. -/
def bytesDue (m : UartPowerOn) (ins : ℕ → UartIn) (n : ℕ) : List (BitVec 8) :=
  Clocked.kept next (reset m) ins (fun s i => (rxPush s i).toList) rbrRead
    (fun _ i => rxFifoClearRequest i) n

/-- **Run lemma.** The receive FIFO is valid before every cycle. -/
theorem rxRing_valid_run (n : ℕ) : (rxRing (run m ins n).rx).Valid :=
  Clocked.run_invariant (P := fun s : Uart => (rxRing s.rx).Valid) ⟨Nat.zero_le _, rfl⟩
    (fun _ h => rxRing_valid_next h) n

/-- An overrun shows in OE until a receive clear. -/
theorem oe_run {n : ℕ} (h : overruns (run m ins n) (ins n) = true) (k : ℕ)
    (hc : ∀ j, n < j → j < n + 1 + k → rxFifoClearRequest (ins j) = false) :
    (run m ins (n + 1 + k)).rx.oe = true := by
  induction k with
  | zero =>
    show (next (run m ins n) (ins n)).rx.oe = true
    rw [oe_next, h]
    rfl
  | succ k ih =>
    show (next (run m ins (n + 1 + k)) (ins (n + 1 + k))).rx.oe = true
    rw [oe_next, ih fun j hj hk => hc j hj (by omega), hc (n + 1 + k) (by omega) (by omega)]
    exact Bool.or_true _

/-- An overrun shows in LSR. -/
theorem lsr_oe (h : s.rx.oe = true) : (lsr s).getLsbD 1 = true := by
  rw [lsr, h]
  cases txTemt s <;> cases txThre s <;> cases rxDr s <;> rfl

end Uart

end Synapse32
