import Synapse32.Core.Delivery
import Synapse32.Core.Squash
import Synapse32.Soc.Liveness

/-! # Interrupts are delivered

An interrupt that is enabled and whose request stays up is taken, whatever the core is doing: it
waits for the access in MEM at most, and that is answered. -/

namespace Synapse32

namespace Top

variable {P : TopParams} {m : PowerOn} {ins : ℕ → TopIn}

variable (P m ins) in
/-- A trap is taken in cycle `n`. -/
def trapped (n : ℕ) : Bool :=
  (RiscvCpu.redirect? (run P m ins n).cpu (cpuIns P m ins n)).isSome

/-- **An interrupt is held** from cycle `n` on: it is to be taken, and its request stays up until a
trap is taken. -/
structure HeldInterrupt (P : TopParams) (m : PowerOn) (ins : ℕ → TopIn) (b n : ℕ) : Prop where
  bit : b ∈ CsrFile.interruptBits
  pends : (run P m ins n).cpu.csrFile.Pends b
  request : ∀ k ≥ n, (∀ j, n ≤ j → j ≤ k → trapped P m ins j = false) →
    RiscvCpu.interruptRequest (run P m ins k).cpu (cpuIns P m ins k) b = true

/-- Until a trap is taken the interrupt stays pending. -/
theorem HeldInterrupt.pends_until {b n : ℕ} (h : HeldInterrupt P m ins b n) {k : ℕ} (hk : n ≤ k)
    (hno : ∀ j, n ≤ j → j < k → trapped P m ins j = false) :
    (run P m ins k).cpu.csrFile.Pends b := by
  induction k, hk using Nat.le_induction with
  | base => exact h.pends
  | succ k hk ih =>
    have hp := ih fun j hj hjk => hno j hj (by omega)
    obtain ⟨programPc, hf⟩ := @frontInv_run P m ins k
    have hx : RiscvCpu.exMemFlush (run P m ins k).cpu (cpuIns P m ins k) = false := by
      rw [← RiscvCpu.redirect?_isSome]
      exact hno k hk (Nat.lt_succ_self k)
    exact (RiscvCpu.pends_next h.bit hp hf hx
      (h.request k hk fun j hj hjk => hno j hj (by omega))).2

/-- **Interrupts are delivered.** With latencies up to 256, whatever runs and whatever waits: from
the cycle on in which an interrupt is to be taken, no instruction leaves EX, until in the end a trap
is taken. Unless the access in MEM or the fetch of the instruction in EX takes a page fault in the
same cycle, it is that of the first interrupt to be taken, and this one is to be taken too. -/
theorem interrupt_delivered (P : TopParams) (m : PowerOn) (ins : ℕ → TopIn)
    (hm : P.bus.memLatency ≤ 256) (hf : P.fetchLatency ≤ 256) (b n : ℕ)
    (h : HeldInterrupt P m ins b n) :
    ∃ k ≥ n, trapped P m ins k = true ∧
      (∀ j, n ≤ j → j < k → trapped P m ins j = false) ∧
      (∀ j, n ≤ j → j ≤ k →
        RiscvCpu.issues (run P m ins j).cpu (cpuIns P m ins j) = false ∧
        RiscvCpu.wfiStall (run P m ins j).cpu = false) ∧
      (run P m ins k).cpu.csrFile.Pends b ∧
      (RiscvCpu.pageFaultTaken (run P m ins k).cpu (cpuIns P m ins k) = true ∨
        ∃ x, (run P m ins k).cpu.csrFile.firstPending = some x ∧
          RiscvCpu.redirect? (run P m ins k).cpu (cpuIns P m ins k) = some
            ⟨⟨x.2, RiscvCpu.interruptPc (run P m ins k).cpu, 0x80000000#32 + BitVec.ofNat 32 x.1,
              none⟩, RiscvCpu.interruptVector (run P m ins k).cpu⟩) := by
  have hex : ∃ k, n ≤ k ∧ trapped P m ins k = true := by
    by_contra hnone
    have hno : ∀ k ≥ n, trapped P m ins k = false :=
      fun k hk => Bool.eq_false_of_not_eq_true fun ht => hnone ⟨k, hk, ht⟩
    obtain ⟨k, hk, hi | ht | hw⟩ := never_stuck P m ins hm hf n
    all_goals have hp := h.pends_until hk fun j hj _ => hno j hj
    · exact Bool.false_ne_true ((RiscvCpu.not_issues_of_pends h.bit hp).symm.trans hi)
    · exact Bool.false_ne_true ((hno k hk).symm.trans ht)
    · exact Bool.false_ne_true ((RiscvCpu.awake_of_pends h.bit hp).symm.trans hw)
  classical
  obtain ⟨hk, ht⟩ := Nat.find_spec hex
  have hno : ∀ j, n ≤ j → j < Nat.find hex → trapped P m ins j = false := by
    intro j hj hlt
    have hmin := Nat.find_min hex hlt
    exact Bool.eq_false_of_not_eq_true fun htj => hmin ⟨hj, htj⟩
  refine ⟨Nat.find hex, hk, ht, hno, fun j hj hjk => ?_, h.pends_until hk hno, ?_⟩
  · have hp := h.pends_until hj fun i hi hij => hno i hi (by omega)
    exact ⟨RiscvCpu.not_issues_of_pends h.bit hp, RiscvCpu.awake_of_pends h.bit hp⟩
  · have hp := h.pends_until hk hno
    rw [trapped, RiscvCpu.redirect?_isSome] at ht
    rw [RiscvCpu.pageFaultTaken, Bool.or_eq_true]
    by_cases hpf : RiscvCpu.memStagePageFaultTaken (run P m ins (Nat.find hex)).cpu
          (cpuIns P m ins (Nat.find hex)) = true ∨
        RiscvCpu.instrStagePageFaultTaken (run P m ins (Nat.find hex)).cpu
          (cpuIns P m ins (Nat.find hex)) = true
    · exact .inl hpf
    · simp only [not_or, Bool.not_eq_true] at hpf
      exact .inr (RiscvCpu.redirect?_of_pends h.bit hp ht hpf.1 hpf.2)

/-- `addi x1, x0, 0x80; csrw mie, x1; lui x2, 0x80000; csrwi mstatus, 8; lw x3, 0x100(x2)`: a load
with the timer interrupt enabled. -/
def timerWaitImage : UnifiedMem := fun w =>
  [0x08000093#32, 0x30409073#32, 0x80000137#32, 0x30045073#32, 0x10012183#32].getD w nopInstr

/-- The timer asks from cycle 48 on. -/
def timerFrom48 (n : ℕ) : TopIn := ⟨0#32, decide (48 ≤ n), false, false, false, 0#64⟩

/-- Its interrupt is pending from the next cycle on, in which the load waits for its line. -/
theorem interrupt_delivered_timerWait :
    ∃ k ≥ 49, trapped slowMemorySoc (zeroOn timerWaitImage) timerFrom48 k = true ∧
      ∀ j, 49 ≤ j → j < k →
        trapped slowMemorySoc (zeroOn timerWaitImage) timerFrom48 j = false := by
  have h : HeldInterrupt slowMemorySoc (zeroOn timerWaitImage) timerFrom48 7 49 := by
    refine ⟨by decide, by decide +kernel, fun k hk _ => ?_⟩
    exact decide_eq_true (show 48 ≤ k by omega)
  obtain ⟨k, hk, ht, hno, -⟩ := interrupt_delivered slowMemorySoc (zeroOn timerWaitImage)
    timerFrom48 (by decide) (by decide) 7 49 h
  exact ⟨k, hk, ht, hno⟩

end Top

end Synapse32
