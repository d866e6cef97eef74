import Synapse32.Uart.Loopback

/-! # Printing

A print job configures the UART and then writes bytes to it. Whatever the cycles of its writes, the
line carries these bytes, one frame each, and idles before, between and behind them. -/

namespace Synapse32

namespace Uart

open SerialLine

variable {s : Uart} {i : UartIn}

/-! ## Register writes -/

/-- A register write: the register and the byte. -/
abbrev RegWrite := BitVec 3 × BitVec 8

/-- Bytes as writes to the transmitter. -/
def bytesAsWrites (bs : List (BitVec 8)) : List RegWrite := bs.map fun b => (0#3, b)

/-- The register write of a cycle. -/
def regWrite (i : UartIn) : List RegWrite :=
  if i.writeEnable && uartValid i then [(regSel i, writeByte i)] else []

/-- The register writes before cycle `n`, in order. -/
def writeLog (ins : ℕ → UartIn) (n : ℕ) : List RegWrite :=
  (List.range n).flatMap fun k => regWrite (ins k)

/-- Nothing has been written before the first cycle. -/
@[simp] theorem writeLog_zero (ins : ℕ → UartIn) : writeLog ins 0 = [] := rfl

/-- One more cycle of register writes. -/
theorem writeLog_succ (ins : ℕ → UartIn) (n : ℕ) :
    writeLog ins (n + 1) = writeLog ins n ++ regWrite (ins n) := by
  simp [writeLog, List.range_succ]

/-- The registers that decide what a write does, and the divisor in use. -/
structure Settings where
  lcr : BitVec 8
  fcr : BitVec 8
  dll : BitVec 8
  dlh : BitVec 8
  baudDiv : BitVec 16
  deriving DecidableEq

/-- The settings of a UART. -/
def settings (s : Uart) : Settings := ⟨s.lcr, s.fcr, s.dll, s.dlh, s.baudDiv⟩

namespace Settings

variable (c : Settings)

/-- The settings after reset. -/
def reset : Settings := ⟨0#8, 0#8, 1#8, 0#8, 1#16⟩

/-- `dlab`. -/
def dlab : Bool := c.lcr.getLsbD 7

/-- The settings after a register write. -/
def write (w : RegWrite) : Settings where
  lcr := if w.1 = 3#3 then w.2 else c.lcr
  fcr := if w.1 = 2#3 then w.2 else c.fcr
  dll := if w.1 = 0#3 ∧ c.dlab = true then w.2 else c.dll
  dlh := if w.1 = 1#3 ∧ c.dlab = true then w.2 else c.dlh
  baudDiv :=
    if w.1 = 3#3 ∧ c.dlab = true ∧ w.2.getLsbD 7 = false then c.dlh ++ c.dll else c.baudDiv

/-- The settings after register writes. -/
def after (ws : List RegWrite) : Settings := ws.foldl write c

/-- Settings after writes, and then more of them. -/
theorem after_append (ws vs : List RegWrite) : c.after (ws ++ vs) = (c.after ws).after vs :=
  List.foldl_append

/-- The write goes to the transmitter. -/
def sends (w : RegWrite) : Bool := w.1 == 0#3 && !c.dlab

/-- None of the writes goes to the transmitter. -/
def configures : Settings → List RegWrite → Bool
  | _, [] => true
  | c, w :: ws => !c.sends w && (c.write w).configures ws

/-- A write among them does not. -/
theorem sends_of_configures {ws vs : List RegWrite} {w : RegWrite}
    (h : c.configures (ws ++ w :: vs) = true) : (c.after ws).sends w = false := by
  induction ws generalizing c with
  | nil =>
    rw [List.nil_append, configures, Bool.and_eq_true, Bool.not_eq_true'] at h
    exact h.1
  | cons v ws ih =>
    rw [List.cons_append, configures, Bool.and_eq_true] at h
    exact ih _ h.2

/-- A byte for the transmitter leaves the settings as they are. -/
theorem write_of_byte (h : c.dlab = false) (b : BitVec 8) : c.write (0#3, b) = c := by
  simp [write, h]

/-- Data bytes change no setting. -/
theorem after_bytes (h : c.dlab = false) (bs : List (BitVec 8)) :
    c.after (bytesAsWrites bs) = c := by
  induction bs with
  | nil => rfl
  | cons b bs ih =>
    change (c.write (0#3, b)).after _ = c
    rw [c.write_of_byte h]
    exact ih

end Settings

/-- A write reaches the register that it selects. -/
theorem writes_eq (r : BitVec 3) :
    writes i r = true ↔ (i.writeEnable && uartValid i) = true ∧ regSel i = r := by
  rw [writes, Bool.and_eq_true, beq_iff_eq]

/-- **A cycle changes the settings as its write says.** -/
theorem settings_next : settings (next s i) = (settings s).after (regWrite i) := by
  unfold regWrite
  cases hw : i.writeEnable && uartValid i
  · have hno : ∀ r, writes i r = false := by
      intro r
      rw [writes, hw, Bool.false_and]
    simp [settings, next, hno, Settings.after]
  · have hyes : ∀ r, writes i r = decide (regSel i = r) := by
      intro r
      rw [writes, hw, Bool.true_and]
      rfl
    have hbit : i.writeData[7] = (writeByte i)[7] := by simp [writeByte]
    simp [settings, next, hyes, Settings.after, Settings.write, Settings.dlab, dlab, hbit,
      and_assoc]

/-- What goes to the transmitter in a cycle. -/
theorem thrWrite_eq : thrWrite s i = (regWrite i).any (settings s).sends := by
  unfold regWrite thrWrite writes
  cases i.writeEnable && uartValid i
  · rfl
  · simp [Settings.sends, Settings.dlab, settings, dlab]

variable {u : UartPowerOn} {ins : ℕ → UartIn}

/-- **Run lemma.** The settings follow the register writes. -/
theorem settings_run (n : ℕ) :
    settings (run u ins n) = Settings.reset.after (writeLog ins n) := by
  induction n with
  | zero => rfl
  | succ n ih => rw [run_succ, settings_next, ih, writeLog_succ, Settings.after_append]

/-! ## Ticks -/

/-- A baud tick comes in the end. -/
theorem exists_baudTick (s₀ : Uart) (ins : ℕ → UartIn) (n : ℕ) :
    ∃ k ≥ n, baudTick (runFrom s₀ ins k) = true := by
  refine Clocked.eventually_of_rank (fun k => (runFrom s₀ ins k).baudTickCounter.toNat)
    (fun _ => False) (fun _ => False) (fun k _ hno => .inl ?_) fun _ _ h => h.elim
  have hno := Bool.eq_false_of_not_eq_true hno
  have hpos := counter_pos_of_no_tick hno
  have htime : tickTime (runFrom s₀ ins (k + 1)) (k + 1) = tickTime (runFrom s₀ ins k) k :=
    tickTime_next_of_no_tick hno k
  rw [tickTime, tickTime] at htime
  change (runFrom s₀ ins (k + 1)).baudTickCounter.toNat < (runFrom s₀ ins k).baudTickCounter.toNat
  omega

/-- The tick counter of a bit steps with each tick. -/
theorem txTickCount_next :
    (next s i).txTickCount = if baudTick s then s.txTickCount + 1#4 else s.txTickCount := rfl

/-- So does a bit tick. -/
theorem exists_bitTick (s₀ : Uart) (ins : ℕ → UartIn) (n : ℕ) :
    ∃ k ≥ n, txBitTick (runFrom s₀ ins k) = true := by
  refine Clocked.eventually_of_rank (fun k => 15 - (runFrom s₀ ins k).txTickCount.toNat)
    (fun k => baudTick (runFrom s₀ ins k) = false) (fun k => baudTick (runFrom s₀ ins k) = true)
    (fun k _ hno => ?_) fun k _ _ => exists_baudTick s₀ ins k
  have hnext : (runFrom s₀ ins (k + 1)).txTickCount =
      if baudTick (runFrom s₀ ins k) then (runFrom s₀ ins k).txTickCount + 1#4
      else (runFrom s₀ ins k).txTickCount := txTickCount_next
  rw [hnext]
  cases hb : baudTick (runFrom s₀ ins k)
  · exact .inr ⟨rfl, Bool.false_ne_true, le_rfl⟩
  · -- Before the last of sixteen ticks the count goes up.
    left
    rw [txBitTick, hb, Bool.true_and, beq_iff_eq] at hno
    have hlt := (runFrom s₀ ins k).txTickCount.isLt
    have hne : (runFrom s₀ ins k).txTickCount.toNat ≠ 15 := fun h => hno (BitVec.eq_of_toNat_eq h)
    rw [if_pos rfl, BitVec.toNat_add]
    change 15 - ((runFrom s₀ ins k).txTickCount.toNat + 1) % 16 < _
    omega

/-! ## Frames start -/

/-- A bound on the bit ticks up to the next start. -/
def bitsLeft (state : TxState) (bitCount : BitVec 4) : ℕ :=
  match state with
  | .idle => 0
  | .start => 18
  | .data => 17 - bitCount.toNat
  | .stop => 0

/-- **Step.** A bit tick starts the frame of a queued byte, or brings the transmitter nearer to
it. -/
theorem bitsLeft_of_tick (ht : txBitTick s = true) (hne : txFifoEmpty s = false)
    (hno : frameStart s = none) : bitsLeft (next s i).tx.state (next s i).tx.bitCount <
      bitsLeft s.tx.state s.tx.bitCount := by
  rw [state_next, bitCount_next, txFsm, if_pos ht]
  rw [frameStart, if_pos ht] at hno
  cases hst : s.tx.state
  · rw [hst] at hno
    cases hp : s.tx.startPending <;> simp [hp, hne] at hno
  · change 16 < 18
    decide
  · have hcount := s.tx.bitCount.isLt
    dsimp only
    by_cases hlt : s.tx.bitCount < 8#4
    · rw [if_pos hlt, hst]
      rw [BitVec.lt_def] at hlt
      have hadd : (s.tx.bitCount + 1#4).toNat = s.tx.bitCount.toNat + 1 := by
        rw [BitVec.toNat_add]
        change (s.tx.bitCount.toNat + 1) % 16 = _
        have h8 : (8#4).toNat = 8 := rfl
        omega
      change 17 - (s.tx.bitCount + 1#4).toNat < 17 - s.tx.bitCount.toNat
      omega
    · rw [if_neg hlt]
      change 0 < 17 - s.tx.bitCount.toNat
      omega
  · rw [hst] at hno
    simp [hne] at hno

/-- Between bit ticks it stays where it is. -/
theorem bitsLeft_of_no_tick (ht : txBitTick s = false) :
    bitsLeft (next s i).tx.state (next s i).tx.bitCount =
      bitsLeft s.tx.state s.tx.bitCount := by
  rw [state_next, bitCount_next, txFsm_of_no_tick ht]

/-- **While bytes are queued frames go on starting.** -/
theorem exists_frameStart {s₀ : Uart} {ins : ℕ → UartIn} {n : ℕ}
    (hne : ∀ k ≥ n, txFifoEmpty (runFrom s₀ ins k) = false) :
    ∃ k ≥ n, frameStart (runFrom s₀ ins k) ≠ none := by
  refine Clocked.eventually_of_rank
    (fun k => bitsLeft (runFrom s₀ ins k).tx.state (runFrom s₀ ins k).tx.bitCount)
    (fun k => txBitTick (runFrom s₀ ins k) = false) (fun k => txBitTick (runFrom s₀ ins k) = true)
    (fun k hk hno => ?_) fun k _ _ => exists_bitTick s₀ ins k
  cases ht : txBitTick (runFrom s₀ ins k)
  · exact .inr ⟨rfl, Bool.false_ne_true, (bitsLeft_of_no_tick ht).le⟩
  · exact .inl (bitsLeft_of_tick ht (hne k hk) (not_not.mp hno))

/-! ## A transmitter at rest -/

/-- Nothing is on the line, held or queued. -/
structure AtRest (s : Uart) : Prop where
  state : s.tx.state = .idle
  out : s.tx.out = true
  held : s.tx.startPending = false
  empty : txFifoEmpty s = true

/-- After reset the transmitter is at rest. -/
theorem atRest_reset (u : UartPowerOn) : AtRest (reset u) := ⟨rfl, rfl, rfl, rfl⟩

/-- A transmitter at rest begins no frame. -/
theorem AtRest.frameStart_eq_none (h : AtRest s) : frameStart s = none := by
  rw [frameStart_eq h.held, txFifoPopped, h.empty, Bool.not_true, Bool.and_false, Bool.false_and,
    if_neg Bool.false_ne_true]

/-- **Step.** The transmitter stays at rest until it is given a byte. -/
theorem AtRest.next (h : AtRest s) (ht : thrWrite s i = false) : AtRest (next s i) := by
  obtain ⟨hstate, hout⟩ := idle_next (i := i) h.state h.out h.frameStart_eq_none
  have hholding : holdingTaken s i = false := by
    rw [holdingTaken, ht, Bool.false_and, Bool.false_and, Bool.false_and]
  refine ⟨hstate, hout, startPending_next h.held hholding, ?_⟩
  have hpush : txFifoPushed s i = false := by
    rw [txFifoPushed, ht, Bool.false_and, Bool.false_and]
  have hpop : txFifoPopped s = false := by
    rw [txFifoPopped, h.empty, Bool.not_true, Bool.and_false, Bool.false_and]
  change (txFifoCountNext s i == 0#5) = true
  rw [txFifoCountNext, hpush, hpop]
  split
  · rfl
  · exact h.empty

/-! ## Print jobs -/

/-- **A print job**: writes that configure the UART, with the FIFO on in the end, and behind them
the bytes of a text that the FIFO has room for. -/
structure PrintJob where
  config : List RegWrite
  text : List (BitVec 8)
  configures : Settings.reset.configures config = true
  dlab : (Settings.reset.after config).dlab = false
  fifo : (Settings.reset.after config).fcr.getLsbD 0 = true
  fits : text.length ≤ 16

namespace PrintJob

variable (job : PrintJob)

/-- The register writes of the job. -/
def writes : List RegWrite := job.config ++ bytesAsWrites job.text

/-- The divisor that the job prints with. -/
def divisor : BitVec 16 := (Settings.reset.after job.config).baudDiv

end PrintJob

/-- The register writes of a run only grow. -/
theorem writeLog_mono {j k : ℕ} (h : j ≤ k) : writeLog ins j <+: writeLog ins k := by
  induction k, h using Nat.le_induction with
  | base => exact List.prefix_refl _
  | succ k _ ih =>
    rw [writeLog_succ]
    exact ih.trans (List.prefix_append _ _)

/-- A cycle writes one register at most. -/
theorem length_regWrite_le (i : UartIn) : (regWrite i).length ≤ 1 := by
  unfold regWrite
  split <;> simp

/-- A log passes through each of its beginnings. -/
theorem exists_writeLog_eq {ws vs : List RegWrite} (hlog : ∀ n, writeLog ins n <+: ws ++ vs)
    (hdone : ∃ n, writeLog ins n = ws ++ vs) : ∃ n, writeLog ins n = ws := by
  classical
  have hex : ∃ n, ws.length ≤ (writeLog ins n).length := by
    obtain ⟨n, hn⟩ := hdone
    exact ⟨n, by rw [hn, List.length_append]; exact Nat.le_add_right _ _⟩
  have hge := Nat.find_spec hex
  have hle : (writeLog ins (Nat.find hex)).length ≤ ws.length := by
    rcases hk : Nat.find hex with _ | k
    · exact Nat.zero_le _
    · have hlt := Nat.find_min hex (m := k) (by omega)
      have hone := length_regWrite_le (ins k)
      rw [writeLog_succ, List.length_append]
      omega
  refine ⟨Nat.find hex, ?_⟩
  have hpre := List.prefix_of_prefix_length_le (hlog (Nat.find hex)) (List.prefix_append ws vs) hle
  exact hpre.eq_of_length_le hge

/-- **While a job configures**, the transmitter is at rest. -/
theorem atRest_run (job : PrintJob) {n : ℕ} (hn : writeLog ins n <+: job.config) :
    AtRest (run u ins n) := by
  induction n with
  | zero => exact atRest_reset u
  | succ n ih =>
    rw [writeLog_succ] at hn
    refine (ih ((List.prefix_append _ _).trans hn)).next ?_
    rw [thrWrite_eq, settings_run]
    by_contra hc
    obtain ⟨w, hw, hsends⟩ := List.any_eq_true.mp (Bool.eq_true_of_not_eq_false hc)
    have hone : regWrite (ins n) = [w] := by
      unfold regWrite at hw ⊢
      split at hw
      · rename_i hc
        rw [if_pos hc, List.mem_singleton.mp hw]
      · exact absurd hw List.not_mem_nil
    obtain ⟨rest, hrest⟩ := hn
    rw [hone, List.append_assoc, List.singleton_append] at hrest
    have hno := Settings.reset.sends_of_configures (hrest ▸ job.configures)
    exact Bool.false_ne_true (hno.symm.trans hsends)

/-! ## The text -/

section Text

variable {job : PrintJob} {n0 : ℕ} (hlog : ∀ n, writeLog ins n <+: job.writes)
  (h0 : writeLog ins n0 = job.config)
include hlog h0

/-- Behind the configuration bytes of the text are written. -/
theorem exists_written {n : ℕ} (hn : n0 ≤ n) :
    ∃ bs, bs <+: job.text ∧ writeLog ins n = job.config ++ bytesAsWrites bs := by
  have hmono : writeLog ins n0 <+: writeLog ins n := writeLog_mono hn
  rw [h0] at hmono
  obtain ⟨t, ht⟩ := hmono
  have hpre := hlog n
  rw [← ht, PrintJob.writes, List.prefix_append_right_inj] at hpre
  refine ⟨job.text.take t.length, List.take_prefix _ _, ?_⟩
  rw [← ht, bytesAsWrites, List.map_take]
  exact congrArg _ (List.prefix_iff_eq_take.mp hpre)

/-- While the text is printed the settings stay. -/
theorem settings_text {n : ℕ} (hn : n0 ≤ n) :
    settings (run u ins n) = Settings.reset.after job.config := by
  obtain ⟨bs, -, hbs⟩ := exists_written hlog h0 hn
  rw [settings_run, hbs, Settings.after_append, Settings.after_bytes _ job.dlab]

/-- Only the transmitter is written. -/
theorem regWrite_text {n : ℕ} (hn : n0 ≤ n) {w : RegWrite} (hw : w ∈ regWrite (ins n)) :
    w.1 = 0#3 := by
  obtain ⟨bs, -, hbs⟩ := exists_written hlog h0 hn
  obtain ⟨cs, -, hcs⟩ := exists_written hlog h0 (Nat.le_succ_of_le hn)
  rw [writeLog_succ, hbs, List.append_assoc] at hcs
  have htail := List.append_cancel_left hcs
  have hmem : w ∈ bytesAsWrites cs := by
    rw [← htail]
    exact List.mem_append_right _ hw
  obtain ⟨b, -, rfl⟩ := List.mem_map.mp hmem
  rfl

/-- What holds in each cycle of the text. -/
theorem text_cycle {n : ℕ} (hn : n0 ≤ n) :
    dlab (run u ins n) = false ∧ fifoEnabled (run u ins n) = true ∧
      (run u ins n).baudDiv = job.divisor ∧ txFifoCleared (ins n) = false ∧
      holdingTaken (run u ins n) (ins n) = false := by
  have hset : settings (run u ins n) = _ := settings_text hlog h0 hn
  have hfifo : fifoEnabled (run u ins n) = true := by
    have hf := job.fifo
    rw [← hset] at hf
    exact hf
  refine ⟨?_, hfifo, congrArg Settings.baudDiv hset, ?_, ?_⟩
  · have hd := job.dlab
    rw [← hset] at hd
    exact hd
  · by_contra hc
    rw [txFifoCleared, Bool.not_eq_false, Bool.and_eq_true] at hc
    obtain ⟨hen, hreg⟩ := (writes_eq 2#3).mp hc.1
    have hmem : (regSel (ins n), writeByte (ins n)) ∈ regWrite (ins n) := by
      rw [regWrite, if_pos hen]
      exact List.mem_singleton_self _
    have hzero : regSel (ins n) = 0#3 := regWrite_text hlog h0 hn hmem
    rw [hreg] at hzero
    exact absurd hzero (by decide)
  · rw [holdingTaken, hfifo, Bool.not_true, Bool.and_false, Bool.false_and, Bool.false_and]

/-- No byte is held past the FIFO. -/
theorem held_text {n : ℕ} (hn : n0 ≤ n) : (run u ins n).tx.startPending = false := by
  induction n, hn using Nat.le_induction with
  | base => exact (atRest_run job (by rw [h0])).held
  | succ n hn ih => exact startPending_next ih (text_cycle hlog h0 hn).2.2.2.2

/-! ### The queue -/

/-- The bytes that the FIFO has taken in the first `j` cycles of the text. -/
def taken (u : UartPowerOn) (ins : ℕ → UartIn) (n0 j : ℕ) : List (BitVec 8) :=
  Clocked.log next (run u ins n0) (fromCycle ins n0) (fun s i => (txPush s i).toList) j

/-- The bytes whose frames have started in them. -/
def started (u : UartPowerOn) (ins : ℕ → UartIn) (n0 j : ℕ) : List (BitVec 8) :=
  Clocked.log next (run u ins n0) (fromCycle ins n0) (fun s _ => (frameStart s).toList) j

omit hlog h0 in
/-- One more cycle of bytes taken. -/
theorem taken_succ (j : ℕ) : taken u ins n0 (j + 1) =
    taken u ins n0 j ++ (txPush (run u ins (n0 + j)) (ins (n0 + j))).toList := by
  rw [run_add]
  exact Clocked.log_succ _ _ j

omit hlog h0 in
/-- One more cycle of frames started. -/
theorem started_succ (j : ℕ) : started u ins n0 (j + 1) =
    started u ins n0 j ++ (frameStart (run u ins (n0 + j))).toList := by
  rw [run_add]
  exact Clocked.log_succ _ _ j

/-- What has been taken has started or is queued. -/
theorem started_append_queue (j : ℕ) :
    started u ins n0 j ++ (txRing (run u ins (n0 + j)).tx).contents = taken u ins n0 j := by
  induction j with
  | zero =>
    have hcount : (run u ins n0).tx.fifoCount = 0#5 := by
      have he := (atRest_run (u := u) job (by rw [h0])).empty
      rwa [txFifoEmpty, beq_iff_eq] at he
    have hnil : (txRing (run u ins (n0 + 0)).tx).contents = [] := by
      rw [← List.length_eq_zero_iff, RingBuffer.length_contents]
      change (run u ins n0).tx.fifoCount.toNat = 0
      rw [hcount]
      rfl
    rw [hnil]
    rfl
  | succ j ih =>
    have hn : n0 ≤ n0 + j := Nat.le_add_right _ _
    obtain ⟨-, -, -, hclear, hhold⟩ := text_cycle hlog h0 (u := u) hn
    have hstep := txQueue_next (txRing_valid_run (n0 + j)) (held_text hlog h0 (u := u) hn) hhold
      hclear
    rw [startedFrame_eq hhold] at hstep
    rw [taken_succ, ← ih, List.append_assoc, hstep, started_succ, List.append_assoc]
    rfl

/-- **The FIFO takes every byte of the text.** -/
theorem writeLog_text (j : ℕ) :
    writeLog ins (n0 + j) = job.config ++ bytesAsWrites (taken u ins n0 j) := by
  induction j with
  | zero =>
    rw [Nat.add_zero, h0]
    exact (List.append_nil _).symm
  | succ j ih =>
    have hn : n0 ≤ n0 + j := Nat.le_add_right _ _
    obtain ⟨hdlab, hfifo, -⟩ := text_cycle hlog h0 (u := u) hn
    have hmap : bytesAsWrites (taken u ins n0 (j + 1)) = bytesAsWrites (taken u ins n0 j) ++
        bytesAsWrites (txPush (run u ins (n0 + j)) (ins (n0 + j))).toList := by
      rw [taken_succ]
      exact List.map_append
    rw [← Nat.add_assoc, writeLog_succ, ih, hmap, List.append_assoc]
    congr 2
    -- The cycle writes nothing, or a byte that the FIFO has room for.
    cases hen : (ins (n0 + j)).writeEnable && uartValid (ins (n0 + j))
    · have hno : txPush (run u ins (n0 + j)) (ins (n0 + j)) = none := by
        rw [txPush, txFifoPushed, thrWrite, writes, hen]
        rfl
      rw [hno, regWrite, hen]
      rfl
    · have hone :
          regWrite (ins (n0 + j)) = [(regSel (ins (n0 + j)), writeByte (ins (n0 + j)))] := by
        rw [regWrite, if_pos hen]
      have hreg : regSel (ins (n0 + j)) = 0#3 :=
        regWrite_text hlog h0 hn (hone ▸ List.mem_singleton_self _)
      have hroom : txFifoFull (run u ins (n0 + j)) = false := by
        obtain ⟨bs, hbs, hbs'⟩ := exists_written hlog h0 (Nat.le_succ_of_le hn)
        rw [writeLog_succ, ih, hone, List.append_assoc] at hbs'
        have hlen := congrArg List.length (List.append_cancel_left hbs')
        simp only [bytesAsWrites, List.length_append, List.length_map,
          List.length_singleton] at hlen
        have hqueue := congrArg List.length (started_append_queue hlog h0 (u := u) j)
        rw [List.length_append, RingBuffer.length_contents] at hqueue
        have hcount : (txRing (run u ins (n0 + j)).tx).count =
          (run u ins (n0 + j)).tx.fifoCount := rfl
        rw [hcount] at hqueue
        have hfits := job.fits
        have hle := hbs.length_le
        rw [txFifoFull, beq_eq_false_iff_ne]
        intro h16
        rw [h16] at hqueue
        have h16' : (16#5).toNat = 16 := rfl
        omega
      have hthr : thrWrite (run u ins (n0 + j)) (ins (n0 + j)) = true := by
        rw [thrWrite, hdlab, Bool.not_false, Bool.and_true]
        exact (writes_eq 0#3).mpr ⟨hen, hreg⟩
      rw [hone, hreg, txPush, txFifoPushed, hthr, hfifo, hroom]
      rfl

/-! ### The end of the text -/

/-- The bytes taken are those of the text, as far as it has been written. -/
theorem taken_eq {j : ℕ} {bs : List (BitVec 8)}
    (hj : writeLog ins (n0 + j) = job.config ++ bytesAsWrites bs) : taken u ins n0 j = bs := by
  have hlog' := writeLog_text hlog h0 (u := u) j
  rw [hj] at hlog'
  have hmap := congrArg (List.map Prod.snd) (List.append_cancel_left hlog')
  rw [bytesAsWrites, bytesAsWrites, List.map_map, List.map_map] at hmap
  exact (List.map_id _).symm.trans (hmap.symm.trans (List.map_id _))

/-- **All frames start.** From some cycle on every byte of the text has been started, and nothing
else. -/
theorem exists_started (hdone : ∃ n, writeLog ins n = job.writes) :
    ∃ j0, ∀ j ≥ j0, started u ins n0 j = job.text := by
  obtain ⟨n1, hn1⟩ := hdone
  have hall : ∀ j, n1 ≤ n0 + j → taken u ins n0 j = job.text := by
    intro j hj
    refine taken_eq hlog h0 ?_
    have hmono : writeLog ins n1 <+: writeLog ins (n0 + j) := writeLog_mono hj
    rw [hn1] at hmono
    exact ((hlog (n0 + j)).eq_of_length_le hmono.length_le)
  -- Once all is written, the queue only shrinks.
  have hstep : ∀ j, n1 ≤ n0 + j → (frameStart (run u ins (n0 + j))).toList ++
      (txRing (run u ins (n0 + (j + 1))).tx).contents =
        (txRing (run u ins (n0 + j)).tx).contents := by
    intro j hj
    have hold := started_append_queue hlog h0 (u := u) j
    have hnew := started_append_queue hlog h0 (u := u) (j + 1)
    rw [hall j hj, ← hall (j + 1) (by omega), ← hnew, started_succ, List.append_assoc] at hold
    exact (List.append_cancel_left hold).symm
  have hempty : ∃ j0 ≥ n1, (txRing (run u ins (n0 + j0)).tx).contents = [] := by
    by_contra hnone
    have hne : ∀ j ≥ n1, (txRing (run u ins (n0 + j)).tx).contents ≠ [] :=
      fun j hj he => hnone ⟨j, hj, he⟩
    have hqueued : ∀ j ≥ n1,
        txFifoEmpty (runFrom (run u ins n0) (fromCycle ins n0) j) = false := by
      intro j hj
      rw [← run_add, txFifoEmpty, beq_eq_false_iff_ne]
      intro hcount
      refine hne j hj (List.length_eq_zero_iff.mp ?_)
      rw [RingBuffer.length_contents]
      exact congrArg BitVec.toNat hcount
    apply hnone
    refine Clocked.eventually_of_rank
      (fun j => (txRing (run u ins (n0 + j)).tx).contents.length)
      (fun j => frameStart (run u ins (n0 + j)) = none)
      (fun j => frameStart (run u ins (n0 + j)) ≠ none) (fun j hj _ => ?_) fun j hj _ => ?_
    · have hlen := congrArg List.length (hstep j (by omega))
      rw [List.length_append] at hlen
      cases hf : frameStart (run u ins (n0 + j)) with
      | none =>
        rw [hf] at hlen
        exact .inr ⟨rfl, fun h => h rfl, by simpa using hlen.le⟩
      | some b =>
        rw [hf, Option.toList_some, List.length_singleton] at hlen
        left
        omega
    · obtain ⟨k, hk, hf⟩ := exists_frameStart (fun k (hk : k ≥ j) => hqueued k (hj.trans hk))
      rw [← run_add] at hf
      exact ⟨k, hk, hf⟩
  obtain ⟨j0, hj0, he⟩ := hempty
  refine ⟨j0, fun j hj => ?_⟩
  have hstays : (txRing (run u ins (n0 + j)).tx).contents = [] := by
    induction j, hj using Nat.le_induction with
    | base => exact he
    | succ j hj ih =>
      have h := hstep j (by omega)
      rw [ih, List.append_eq_nil_iff] at h
      exact h.2
  have htaken := started_append_queue hlog h0 (u := u) j
  rw [hstays, List.append_nil] at htaken
  rw [htaken, hall j (by omega)]

/-! ### The line -/

omit hlog h0 in
/-- The frames of a run only grow. -/
theorem framesSent_mono {s₀ : Uart} (P : ℕ) {j k : ℕ} (h : j ≤ k) :
    framesSent s₀ ins P j <+: framesSent s₀ ins P k := by
  induction k, h using Nat.le_induction with
  | base => exact List.prefix_refl _
  | succ k _ ih =>
    refine ih.trans ?_
    rw [framesSent]
    rcases frameStart (runFrom s₀ ins k) with _ | b
    · exact List.prefix_refl _
    · exact List.prefix_append _ _

/-- The frames on the line carry the bytes that they were started with. -/
theorem map_framesSent (j : ℕ) :
    (framesSent (run u ins n0) (fromCycle ins n0) (16 * tickPeriod job.divisor) j).map Prod.snd =
      started u ins n0 j := by
  have hdiv : ∀ k, (runFrom (run u ins n0) (fromCycle ins n0) k).baudDiv = job.divisor := by
    intro k
    rw [← run_add]
    exact (text_cycle hlog h0 (Nat.le_add_right _ _)).2.2.1
  have hok : ∀ k, spoils (runFrom (run u ins n0) (fromCycle ins n0) k) (fromCycle ins n0 k) =
      false := by
    intro k
    have hn : n0 ≤ n0 + k := Nat.le_add_right _ _
    rw [← run_add, spoils, held_text hlog h0 hn, if_neg Bool.false_ne_true]
    change (_ && (_ && holdingTaken (run u ins (n0 + k)) (ins (n0 + k)) && _)) = false
    rw [(text_cycle hlog h0 hn).2.2.2.2, Bool.and_false, Bool.false_and, Bool.and_false]
  have hstate : (run u ins n0).tx.state = .idle := (atRest_run job (by rw [h0])).state
  induction j with
  | zero => rfl
  | succ j ih =>
    rw [started_succ, ← ih, framesSent, run_add]
    rcases hf : frameStart (runFrom (run u ins n0) (fromCycle ins n0) j) with _ | b
    · exact (List.append_nil _).symm
    · have hbyte := driven_eq (n := j + 1 + 8 * (16 * tickPeriod job.divisor)) hstate
        (fun k _ => hok k) (fun k _ => hdiv k) hf le_rfl
      simp [hbyte]

end Text

/-- **A print job is printed.** In every run of the UART that makes the register writes of a job, in
whatever cycles, the line carries the bytes of its text in order, in one frame each of the job's
divisor, and is high in every other cycle of the run. -/
theorem job_printed (u : UartPowerOn) (ins : ℕ → UartIn) (job : PrintJob)
    (hlog : ∀ n, writeLog ins n <+: job.writes) (hdone : ∃ n, writeLog ins n = job.writes) :
    ∃ frames, frames.map Prod.snd = job.text ∧
      Spaced (16 * tickPeriod job.divisor) 0 frames ∧
      ∀ n, (run u ins n).tx.out = line (16 * tickPeriod job.divisor) frames n := by
  obtain ⟨n0, h0⟩ := exists_writeLog_eq hlog hdone
  obtain ⟨j0, hj0⟩ := exists_started (u := u) hlog h0 hdone
  set P := 16 * tickPeriod job.divisor with hP
  set sent := framesSent (run u ins n0) (fromCycle ins n0) P with hsent
  have hrest : AtRest (run u ins n0) := atRest_run job (by rw [h0])
  have hquiet : TxQuiet (run u ins n0) := ⟨hrest.state, hrest.out⟩
  have hdiv : ∀ k, (runFrom (run u ins n0) (fromCycle ins n0) k).baudDiv = job.divisor := by
    intro k
    rw [← run_add]
    exact (text_cycle hlog h0 (Nat.le_add_right _ _)).2.2.1
  have hspaced : Spaced P 0 (sent j0) :=
    spaced_framesSent hquiet (fun k (_ : k < j0) => hdiv k) j0 le_rfl
  have hshift : Spaced P n0 (delay n0 (sent j0)) := by
    have h := hspaced.delay n0
    rwa [Nat.zero_add] at h
  refine ⟨delay n0 (sent j0), ?_, hshift.of_le (Nat.zero_le _), fun n => ?_⟩
  · rw [map_snd_delay, map_framesSent hlog h0, hj0 j0 le_rfl]
  · rcases Nat.lt_or_ge n n0 with hlt | hge
    · -- Before the text the line is idle.
      have hbefore : writeLog ins n <+: job.config := by
        rw [← h0]
        exact writeLog_mono hlt.le
      rw [line_of_lt hshift hlt]
      exact (atRest_run job hbefore).out
    · obtain ⟨j, rfl⟩ := Nat.exists_eq_add_of_le hge
      have hout := (driving_run hquiet (fun k (_ : k < j) => hdiv k) j le_rfl).out
        fun k _ => hdiv k
      have hline : line P (sent j) j = line P (sent j0) j := by
        rcases Nat.le_total j j0 with hle | hle
        · exact (line_framesSent P hle).symm
        · -- No frame starts behind the last one.
          have hlen : (sent j).length = (sent j0).length := by
            have hmap : (sent j).map Prod.snd = (sent j0).map Prod.snd := by
              rw [hsent, map_framesSent hlog h0, map_framesSent hlog h0, hj0 j hle, hj0 j0 le_rfl]
            have hlen := congrArg List.length hmap
            rwa [List.length_map, List.length_map] at hlen
          have hpre : sent j0 <+: sent j := framesSent_mono P hle
          rw [hpre.eq_of_length hlen.symm]
      rw [run_add, hout, Nat.add_comm n0 j, line_delay, ← hline]

end Uart

end Synapse32
