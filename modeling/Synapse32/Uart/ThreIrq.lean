import Synapse32.Uart.TxQueue

/-! # UART transmitter-empty interrupt

The latch behind the THRE interrupt: what sets it, what clears it, and which IIR reads take an event
that they do not report. -/

namespace Synapse32

namespace Uart

variable {s : Uart} {i : UartIn}

/-- An IIR read returns the code of the THRE interrupt. -/
def reportsThre (s : Uart) (i : UartIn) : Bool :=
  reads i 2#3 && (readData s i).extractLsb' 0 4 == 2#4

/-- Software learns of the event: it writes THR, or it reads the THRE code from IIR. -/
def acknowledges (s : Uart) (i : UartIn) : Bool := thrWrite s i || reportsThre s i

/-- An IIR read that finds no interrupt pending takes an event: the latch is set but masked in IER,
or THRE rises in this very cycle. -/
def swallows (s : Uart) (i : UartIn) : Bool :=
  reads i 2#3 && !rxIrqPending s && !threIrqPending s && (s.threIrq || threIrqSet s)

/-! ## The latch -/

/-- IIR reports THRE if that interrupt is pending and no received byte outranks it. -/
theorem reportsThre_eq :
    reportsThre s i = (reads i 2#3 && (!rxIrqPending s && threIrqPending s)) := by
  rw [reportsThre]
  cases hr : reads i 2#3
  · rfl
  · have haccess := hr
    rw [reads, Bool.and_eq_true, Bool.and_eq_true, beq_iff_eq] at haccess
    have hdata : readData s i = (iir s).setWidth 32 := by
      rw [readData, haccess.1.1, haccess.1.2, haccess.2]
      rfl
    rw [hdata, iir]
    cases rxIrqPending s <;> cases threIrqPending s <;> cases fifoEnabled s <;> rfl

/-- A THR write and an IIR read name different registers. -/
theorem not_reads_of_thrWrite (h : thrWrite s i = true) : reads i 2#3 = false := by
  have hw := writes_of_thrWrite h
  rw [writes, Bool.and_eq_true, beq_iff_eq] at hw
  rw [reads, hw.2]
  exact Bool.and_false _

/-- The latch after the edge. -/
theorem threIrq_next :
    (next s i).threIrq = (!threIrqClear s i && (threIrqSet s || s.threIrq)) := by
  show (if threIrqClear s i then false else if threIrqSet s then true else s.threIrq) = _
  cases threIrqClear s i <;> cases threIrqSet s <;> rfl

/-- **Step.** An event that is latched or arrives survives the cycle or is acknowledged, exactly if
no IIR read swallows it. -/
theorem latched_next_iff (h : (s.threIrq || threIrqSet s) = true) :
    ((next s i).threIrq = true ∨ acknowledges s i = true) ↔ swallows s i = false := by
  rw [threIrq_next, Bool.or_comm (threIrqSet s), h, Bool.and_true, threIrqClear, acknowledges,
    swallows, h, Bool.and_true, reportsThre_eq]
  cases hw : thrWrite s i
  · cases reads i 2#3 <;> cases rxIrqPending s <;> cases threIrqPending s <;> decide
  · rw [not_reads_of_thrWrite hw]
    simp

/-! ## Over runs -/

variable {m : UartPowerOn} {ins : ℕ → UartIn}

/-- THRE is 1 in cycle `n` and was 0 in the cycle before. -/
def threRises (m : UartPowerOn) (ins : ℕ → UartIn) : ℕ → Bool
  | 0 => false
  | n + 1 => txThre (run m ins (n + 1)) && !txThre (run m ins n)

/-- The latch is set where THRE rises. -/
theorem threIrqSet_run (n : ℕ) : threIrqSet (run m ins n) = threRises m ins n := by
  cases n with
  | zero => exact Bool.and_false _
  | succ n => rfl

/-- **No event is swallowed**: a rise of THRE in cycle `n` stays latched until a THR write or an IIR
read that returns the THRE code, in that cycle or later, and no other cycle clears the latch. -/
structure ThreKept (m : UartPowerOn) (ins : ℕ → UartIn) (n : ℕ) : Prop where
  rise : threRises m ins n = true → ∀ k, (run m ins (n + 1 + k)).threIrq = true ∨
    ∃ j, n ≤ j ∧ j ≤ n + k ∧ acknowledges (run m ins j) (ins j) = true
  latch : (run m ins n).threIrq = true →
    (run m ins (n + 1)).threIrq = true ∨ acknowledges (run m ins n) (ins n) = true

/-- In a run that swallows nothing, what is latched or arrives in cycle `n` stays until it is
acknowledged. -/
theorem latched_run (h : ∀ n, swallows (run m ins n) (ins n) = false) {n : ℕ}
    (hn : ((run m ins n).threIrq || threIrqSet (run m ins n)) = true) (k : ℕ) :
    (run m ins (n + 1 + k)).threIrq = true ∨
      ∃ j, n ≤ j ∧ j ≤ n + k ∧ acknowledges (run m ins j) (ins j) = true := by
  induction k with
  | zero =>
    rcases (latched_next_iff hn).mpr (h n) with hset | hack
    · exact .inl hset
    · exact .inr ⟨n, le_refl n, le_refl n, hack⟩
  | succ k ih =>
    rcases ih with hset | ⟨j, hj, hjk, hack⟩
    · have hor :
          ((run m ins (n + 1 + k)).threIrq || threIrqSet (run m ins (n + 1 + k))) = true := by
        rw [hset, Bool.true_or]
      rcases (latched_next_iff hor).mpr (h (n + 1 + k)) with hset | hack
      · exact .inl hset
      · exact .inr ⟨n + 1 + k, by omega, by omega, hack⟩
    · exact .inr ⟨j, hj, by omega, hack⟩

/-- **The transmitter-empty interrupt is never swallowed exactly if no IIR read finds the event
unreported**, whatever the accesses, the received bytes and the baud ticks are. -/
theorem run_threKept_iff :
    (∀ n, ThreKept m ins n) ↔ ∀ n, swallows (run m ins n) (ins n) = false := by
  constructor
  · intro h n
    by_contra hne
    have hsw : swallows (run m ins n) (ins n) = true := Bool.eq_true_of_not_eq_false hne
    rw [swallows, Bool.and_eq_true] at hsw
    apply hne
    apply (latched_next_iff hsw.2).mp
    rcases Bool.or_eq_true_iff.mp hsw.2 with hset | hrise
    · exact (h n).latch hset
    · rw [threIrqSet_run] at hrise
      rcases (h n).rise hrise 0 with hset | ⟨j, hj, hjn, hack⟩
      · exact .inl hset
      · obtain rfl : j = n := by omega
        exact .inr hack
  · intro h n
    constructor
    · intro hrise
      apply latched_run h
      rw [threIrqSet_run, hrise, Bool.or_true]
    · intro hset
      have hor : ((run m ins n).threIrq || threIrqSet (run m ins n)) = true := by
        rw [hset, Bool.true_or]
      exact (latched_next_iff hor).mpr (h n)

/-- One byte goes through the FIFO with the THRE interrupt enabled or not; its frame starts in cycle
15, so that THRE rises in cycle 16. IIR is read in cycle `r`. -/
def iirReadAt (ier : Word) (r : ℕ) (n : ℕ) : UartIn :=
  if n = r then readIn 2#3
  else if n = 0 then writeIn 2#3 0x01#32
  else if n = 1 then writeIn 1#3 ier
  else if n = 2 then writeIn 0#3 0x41#32
  else idleIn

/-- **An IIR read swallows the event without reporting it**: in the cycle in which THRE rises, with
its interrupt enabled, and in a later cycle, with the interrupt masked. -/
theorem threIrq_swallowed :
    (threRises zeroUart (iirReadAt 2#32 16) 16 = true ∧
      readData (run zeroUart (iirReadAt 2#32 16) 16) (iirReadAt 2#32 16 16) = 0xC1#32 ∧
      ¬ ThreKept zeroUart (iirReadAt 2#32 16) 16) ∧
    ((run zeroUart (iirReadAt 0#32 20) 20).threIrq = true ∧
      readData (run zeroUart (iirReadAt 0#32 20) 20) (iirReadAt 0#32 20 20) = 0xC1#32 ∧
      ¬ ThreKept zeroUart (iirReadAt 0#32 20) 20) := by
  refine ⟨⟨by decide +kernel, by decide +kernel, fun h => ?_⟩,
    by decide +kernel, by decide +kernel, fun h => ?_⟩
  · rcases h.rise (by decide +kernel) 0 with hset | ⟨j, hj, hjn, hack⟩
    · exact absurd hset (by decide +kernel)
    · obtain rfl : j = 16 := by omega
      exact absurd hack (by decide +kernel)
  · rcases h.latch (by decide +kernel) with hset | hack
    · exact absurd hset (by decide +kernel)
    · exact absurd hack (by decide +kernel)

end Uart

end Synapse32
