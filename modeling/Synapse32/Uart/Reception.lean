import Synapse32.Uart.Receive

/-! # UART reception

What the receiver takes from its line, whatever the line carries and the FIFO does, and what RBR
reads return of it. The bytes that arrive are those on the line as it is sampled, those that a
full FIFO or a clear drops included. -/

namespace Synapse32

namespace Uart

open SerialLine

variable {s : Uart} {i : UartIn} {xs : List Bool}

/-! ## The line as it is sampled -/

/-- The line as the receiver sees it, two flops later; reset leaves them high. -/
def syncLine (ins : ℕ → UartIn) : ℕ → Bool
  | n + 2 => (ins n).rx
  | _ => true

/-- The levels of the line at the baud ticks before cycle `n`. -/
def samples (m : UartPowerOn) (ins : ℕ → UartIn) : ℕ → List Bool
  | 0 => []
  | n + 1 =>
    if baudTick (run m ins n) then samples m ins n ++ [syncLine ins n] else samples m ins n

/-- The second flop holds the line of two cycles ago. -/
theorem rxSync_eq (m : UartPowerOn) (ins : ℕ → UartIn) (n : ℕ) :
    (run m ins n).rx.rxSync = syncLine ins n := by
  match n with
  | 0 => rfl
  | 1 => rfl
  | n + 2 => rfl

/-! ## One tick -/

/-- The receiver with the samples of the frame that it is in: none while it waits. -/
inductive Gathered (r : UartRx) : List Bool → Prop
  | idle (hs : r.state = .idle) : Gathered r []
  | frame {xs : List Bool} (hlen : xs.length < 151) (hmid : xs[6]? ≠ some true)
      (hp : RxPosition r (sampledByte xs) (xs.length + 1)) : Gathered r (false :: xs)

/-- What has been gathered is no byte yet. -/
theorem Gathered.decode_eq {r : UartRx} (h : Gathered r xs) : decode xs = [] := by
  cases h with
  | idle => exact decode_nil
  | frame hlen hmid => exact decode_open hlen hmid

/-- A cycle without a tick gathers nothing. -/
theorem Gathered.wait (h : Gathered s.rx xs) (htick : baudTick s = false) :
    Gathered (next s i).rx xs := by
  obtain ⟨hs, ht, hc, hb⟩ := rx_next_of_no_tick (i := i) htick
  cases h with
  | idle hidle => exact .idle (hs.trans hidle)
  | frame hlen hmid hp => exact .frame hlen hmid (hp.of_eq hs ht hc hb)

/-- One more sample leaves the bits that have been sampled. -/
theorem RxPosition.sample {r : UartRx} (x : Bool)
    (hp : RxPosition r (sampledByte xs) (xs.length + 1)) :
    RxPosition r (sampledByte (xs ++ [x])) (xs.length + 1) :=
  hp.congr fun _ hk hlt => getLsbD_sampledByte_append hk (by omega) [x]

/-- **Step, in a frame.** A tick gathers one more sample; the one in the middle of the start bit may
show noise, and the one in the stop bit ends the frame. -/
theorem gathered_frame (htick : baudTick s = true) (hlen : xs.length < 151)
    (hmid : xs[6]? ≠ some true) (hp : RxPosition s.rx (sampledByte xs) (xs.length + 1)) :
    ∃ xs', Gathered (next s i).rx xs' ∧ ∀ ys, decode (false :: (xs ++ [s.rx.rxSync] ++ ys)) =
      (arrival s).toList ++ decode (xs' ++ ys) := by
  rcases eq_or_ne xs.length 150 with h150 | h150
  · -- The stop bit.
    rw [h150] at hp
    obtain ⟨harrives, hshift, hidle⟩ := hp.arrive (i := i) htick
    refine ⟨[], .idle hidle, fun ys => ?_⟩
    have hbyte : sampledByte (xs ++ [s.rx.rxSync]) = sampledByte xs := by
      apply BitVec.eq_of_getLsbD_eq
      intro k hk
      exact getLsbD_sampledByte_append hk (by omega) _
    rw [decode_frame ys h150 hmid, hbyte, arrival, harrives, hshift]
    cases s.rx.rxSync
    · rfl
    · rfl
  · have hnone : arrival s = none := arrival_of_not_arrives (hp.not_arrives (by omega))
    by_cases hnoise : xs.length = 6 ∧ s.rx.rxSync = true
    · obtain ⟨h6, hhigh⟩ := hnoise
      rw [h6] at hp
      refine ⟨[], .idle (hp.noise htick hhigh), fun ys => ?_⟩
      rw [hnone, hhigh]
      exact decode_noise ys h6
    · refine ⟨false :: (xs ++ [s.rx.rxSync]), .frame ?_ ?_ ?_, fun ys => by rw [hnone]; rfl⟩
      · rw [List.length_append, List.length_singleton]
        omega
      · -- The sample in the middle of the start bit is this one, or an older one.
        intro hhigh
        rcases Nat.lt_or_ge 6 xs.length with hlt | hge
        · rw [List.getElem?_append_left hlt] at hhigh
          exact hmid hhigh
        · rw [List.getElem?_append_right hge, List.getElem?_singleton] at hhigh
          split at hhigh
          · exact hnoise ⟨by omega, Option.some.inj hhigh⟩
          · cases hhigh
      · have hnext := (hp.sample s.rx.rxSync).tick (i := i) htick (by omega)
          (fun h => Bool.eq_false_of_not_eq_true fun hhigh => hnoise ⟨by omega, hhigh⟩)
          (fun k hk h => ?_)
        · rwa [List.length_append, List.length_singleton]
        · have hk' : 22 + 16 * k = xs.length := by omega
          rw [getLsbD_sampledByte _ hk, List.getD_eq_getElem?_getD, hk',
            List.getElem?_concat_length]
          rfl

/-- **Step.** What a tick samples is gathered, and the byte that arrives is the one that the line
has carried. -/
theorem Gathered.tick (h : Gathered s.rx xs) (htick : baudTick s = true) :
    ∃ xs', Gathered (next s i).rx xs' ∧ ∀ ys, decode (xs ++ [s.rx.rxSync] ++ ys) =
      (arrival s).toList ++ decode (xs' ++ ys) := by
  cases h with
  | idle hs =>
    have hidle := rx_idle_tick (i := i) (b := sampledByte []) hs htick
    have hnone : arrival s = none :=
      arrival_of_not_arrives (not_arrives_of_ne_stop (by rw [hs]; decide))
    rw [hnone]
    cases hline : s.rx.rxSync
    · rw [hline] at hidle
      exact ⟨[false], .frame (by decide) (by decide) hidle, fun ys => rfl⟩
    · rw [hline] at hidle
      exact ⟨[], .idle hidle, fun ys => decode_high ys⟩
  | frame hlen hmid hp => exact gathered_frame htick hlen hmid hp

/-! ## Over runs -/

variable {m : UartPowerOn} {ins : ℕ → UartIn}

/-- **What arrives is what the line carries**: noise and bytes without a stop bit apart, and
whatever is read, cleared or lost. -/
theorem bytesArrived_eq (m : UartPowerOn) (ins : ℕ → UartIn) (n : ℕ) :
    bytesArrived (reset m) ins n = decode (samples m ins n) := by
  suffices h : ∃ xs, Gathered (run m ins n).rx xs ∧ ∀ ys, decode (samples m ins n ++ ys) =
      bytesArrived (reset m) ins n ++ decode (xs ++ ys) by
    obtain ⟨xs, hgathered, hdecode⟩ := h
    have hall := hdecode []
    rw [List.append_nil, List.append_nil, hgathered.decode_eq, List.append_nil] at hall
    exact hall.symm
  induction n with
  | zero => exact ⟨[], .idle rfl, fun ys => rfl⟩
  | succ n ih =>
    obtain ⟨xs, hgathered, hdecode⟩ := ih
    have hrun : runFrom (reset m) ins n = run m ins n := rfl
    cases htick : baudTick (run m ins n)
    · refine ⟨xs, hgathered.wait htick, fun ys => ?_⟩
      have hnone : arrival (run m ins n) = none :=
        arrival_of_not_arrives (not_arrives_of_no_tick htick)
      rw [samples, htick, if_neg Bool.false_ne_true, hdecode, bytesArrived_succ, hrun, hnone]
      simp
    · obtain ⟨xs', hgathered', hstep⟩ := hgathered.tick (i := ins n) htick
      refine ⟨xs', hgathered', fun ys => ?_⟩
      have hsample := hstep ys
      rw [rxSync_eq, List.append_assoc] at hsample
      rw [samples, htick, if_pos rfl, List.append_assoc, hdecode, hsample, bytesArrived_succ, hrun,
        List.append_assoc]

/-- **The receive queue is exact** in cycle `n`. The bytes that arrive are those on the line. The
reads that found DR at 1 have returned, in order and each once, the bytes queued less those a clear
dropped, the others being queued; the count is their number, at most 16, and agrees with head and
tail. A byte that arrives is queued, unless a receive clear drops it, or 16 are queued and RBR is
not read, which shows in OE until a receive clear. -/
structure RxQueueExact (m : UartPowerOn) (ins : ℕ → UartIn) (n : ℕ) : Prop where
  /-- Whatever the line carries. -/
  line : bytesArrived (reset m) ins n = decode (samples m ins n)
  /-- On a line of frames, from a quiet receiver on: their bytes. -/
  frames : ∀ (t k : ℕ) (d : BitVec 16) (fs : List (ℕ × BitVec 8)), t + k = n →
    RxQuiet d (run m ins t) → Spaced (16 * tickPeriod d) 0 fs →
    (∀ u < k, (run m ins (t + u)).baudDiv = d) →
    (∀ u < k, (ins (t + u)).rx = SerialLine.line (16 * tickPeriod d) fs u) →
    Received (tickPeriod d) fs (bytesArrived (run m ins t) (fromCycle ins t) k) k
  order : bytesRead m ins n ++ (rxRing (run m ins n).rx).contents = bytesDue m ins n
  count : (bytesRead m ins n).length + (run m ins n).rx.fifoCount.toNat = (bytesDue m ins n).length
  le : (run m ins n).rx.fifoCount.toNat ≤ 16
  pointers : (run m ins n).rx.fifoTail.toNat =
    ((run m ins n).rx.fifoHead.toNat + (run m ins n).rx.fifoCount.toNat) % 16
  queued : ∀ b, rxPush (run m ins n) (ins n) = some b → arrival (run m ins n) = some b
  dropped : ∀ b, arrival (run m ins n) = some b → rxPush (run m ins n) (ins n) ≠ some b →
    rxFifoClearRequest (ins n) = true ∨
      ((run m ins n).rx.fifoCount.toNat = 16 ∧ rxFifoPopRequest (run m ins n) (ins n) = false ∧
        ∀ k, (∀ j, n < j → j < n + 1 + k → rxFifoClearRequest (ins j) = false) →
          (lsr (run m ins (n + 1 + k))).getLsbD 1 = true)

/-- **The receive queue is exact in every run**, whatever arrives, is read and is written and in
whatever cycle. -/
theorem run_rxQueueExact (m : UartPowerOn) (ins : ℕ → UartIn) (n : ℕ) : RxQueueExact m ins n := by
  have hv : ∀ k, (rxRing (run m ins k).rx).Valid := rxRing_valid_run
  have horder : bytesRead m ins n ++ (rxRing (run m ins n).rx).contents = bytesDue m ins n :=
    Clocked.log_append_held ins (fun s : Uart => (rxRing s.rx).contents)
      (fun s i => (rxPush s i).toList) rbrRead (fun _ i => rxFifoClearRequest i) n rfl
      (fun k _ hc => rxQueue_next (hv k) hc) fun k _ hc => by
        obtain ⟨hread, hempty⟩ := rxQueue_clear (s := run m ins k) hc
        exact ⟨hread ▸ List.nil_prefix, hempty⟩
  constructor
  case line => exact bytesArrived_eq m ins n
  case frames =>
    intro t k d fs _ hquiet hspaced hdiv hline
    refine arrived hquiet hspaced (fun u hu => ?_) hline
    rw [← run_add]
    exact hdiv u hu
  case order => exact horder
  case count =>
    rw [← horder, List.length_append, RingBuffer.length_contents]
    rfl
  case le => exact (hv n).le
  case pointers => exact (hv n).tail_toNat
  case queued => exact fun _ h => arrival_of_push h
  case dropped =>
    intro b ha hp
    rcases dropped_cases ha hp with hc | hover
    · exact .inl hc
    · have hfull := hover
      simp only [overruns, rxFifoFull, Bool.and_eq_true, Bool.not_eq_true', beq_iff_eq] at hfull
      refine .inr ⟨congrArg BitVec.toNat hfull.1.2, hfull.2, fun k hc => ?_⟩
      exact lsr_oe (oe_run hover k hc)

/-- Nineteen frames, back to back. -/
def burst : List (ℕ × BitVec 8) :=
  (List.range 19).map fun k => (16 + 160 * k, BitVec.ofNat 8 (0x41 + k))

/-- They come in on the line. The FIFO is full in cycle 2729, in which the seventeenth arrives
and RBR is read; the eighteenth is lost in cycle 2889; and a clear in cycle 2900 drops what is
queued. -/
def fullBurst (n : ℕ) : UartIn :=
  { (if n = 2729 then readIn 0#3 else if n = 2900 then writeIn 2#3 0x02#32 else idleIn) with
    rx := line 16 burst n }

/-- What is lost to overruns before cycle `n`. -/
def bytesLost (m : UartPowerOn) (ins : ℕ → UartIn) (n : ℕ) : List (BitVec 8) :=
  Clocked.log next (reset m) ins (fun s i => if overruns s i then (arrival s).toList else []) n

/-- All of them arrive, the eighteenth is lost, and the first is read. -/
theorem rxQueueExact_fullBurst :
    RxQueueExact zeroUart fullBurst 3060 ∧
      bytesArrived (reset zeroUart) fullBurst 3060 = burst.map Prod.snd ∧
      bytesLost zeroUart fullBurst 3060 = [0x52#8] ∧
      bytesRead zeroUart fullBurst 3060 = [0x41#8] :=
  ⟨run_rxQueueExact zeroUart fullBurst 3060, by decide +kernel⟩

end Uart

end Synapse32
