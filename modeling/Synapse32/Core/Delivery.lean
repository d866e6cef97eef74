import Synapse32.Core.Pending
import Synapse32.Core.Privilege
import Synapse32.Core.Standstill

/-! # Pending interrupts

What makes an interrupt pending for the core, and what a cycle does while one is: no instruction
leaves EX, and the core does not sleep. Where nothing is squashed either, the interrupt stays
pending as long as its request does. -/

namespace Synapse32

namespace CsrFile

/-- The interrupts, by their bit in `mip` and `mie`, in the order of their priority. -/
def interruptBits : List ℕ := [11, 3, 7, 9, 1, 5]

/-- The interrupt traps to S-mode: it is one of the supervisor's, and delegated. -/
def delegated (f : CsrFile) (b : ℕ) : Bool := [9, 1, 5].contains b && f.mideleg.getLsbD b

/-- The privilege mode lets an interrupt through that traps to S-mode, or to M-mode. -/
def letsThrough (f : CsrFile) (toSupervisor : Bool) : Bool :=
  if toSupervisor then
    f.privilegeMode == privU || (f.privilegeMode == privS && f.mstatus.getLsbD 1)
  else f.privilegeMode != privM || f.mstatus.getLsbD 3

/-- **Interrupt `b` is to be taken**: it is pending, enabled, and not masked by the mode. -/
def Pends (f : CsrFile) (b : ℕ) : Prop :=
  (f.mip.getLsbD b && f.mie.getLsbD b && f.letsThrough (f.delegated b)) = true

/-- Whether an interrupt is to be taken can be decided. -/
instance (f : CsrFile) (b : ℕ) : Decidable (f.Pends b) := inferInstanceAs (Decidable (_ = true))

/-- The interrupts with whether they trap to S-mode, in the order in which they are taken: those for
M-mode go first. -/
def ranked : List (ℕ × Bool) := interruptBits.map (·, false) ++ interruptBits.map (·, true)

/-- **The interrupt that is taken**: the first of those to be taken. -/
def firstPending (f : CsrFile) : Option (ℕ × Bool) :=
  ranked.find? fun x => f.delegated x.1 == x.2 && f.Pends x.1

/-- Every interrupt is ranked where it traps to. -/
theorem mem_ranked (f : CsrFile) {b : ℕ} (h : b ∈ interruptBits) : (b, f.delegated b) ∈ ranked := by
  cases f.delegated b
  · exact List.mem_append_left _ (List.mem_map_of_mem h)
  · exact List.mem_append_right _ (List.mem_map_of_mem h)

/-- **The controller reports the first interrupt to be taken**, with its cause. -/
theorem interruptController_eq (f : CsrFile) :
    interruptController f.mstatus f.mie f.mip f.mideleg f.privilegeMode =
      f.firstPending.elim ⟨false, 0#32, false⟩
        fun x => ⟨true, 0x80000000#32 + BitVec.ofNat 32 x.1, x.2⟩ := by
  have hm : (f.privilegeMode != privM || f.mstatus.getLsbD 3) = f.letsThrough false := rfl
  have hs : (f.privilegeMode == privU || (f.privilegeMode == privS && f.mstatus.getLsbD 1)) =
    f.letsThrough true := rfl
  have hd : ∀ b, f.delegated b = ([9, 1, 5].contains b && f.mideleg.getLsbD b) := fun b => rfl
  have htest : ∀ b t, (f.delegated b == t && decide (f.Pends b)) =
      (f.letsThrough t && (f.mip.getLsbD b && f.mie.getLsbD b) && f.delegated b == t) := by
    intro b t
    have hp : decide (f.Pends b) =
        (f.mip.getLsbD b && f.mie.getLsbD b && f.letsThrough (f.delegated b)) :=
      Bool.eq_iff_iff.mpr decide_eq_true_iff
    rw [hp]
    cases hb : f.delegated b == t
    · rw [Bool.false_and, Bool.and_false]
    · rw [beq_iff_eq.mp hb, Bool.true_and, Bool.and_true, Bool.and_comm]
  -- One choice of the controller after the other, in the order of the ranks.
  have hstep : ∀ (x : ℕ × Bool) (l : List (ℕ × Bool)) (p : ℕ × Bool → Bool) (o : InterruptOut)
      (g : ℕ × Bool → InterruptOut),
      ((x :: l).find? p).elim o g = if p x then g x else (l.find? p).elim o g := by
    intro x l p o g
    rw [List.find?_cons]
    cases p x <;> rfl
  rw [interruptController, hm, hs, firstPending, ranked, interruptBits]
  simp only [List.map_cons, List.map_nil, List.cons_append, List.nil_append, hstep, htest]
  simp [hd]

/-- **The controller reports an interrupt exactly when one is to be taken.** -/
theorem interruptPending_iff (f : CsrFile) :
    (interruptController f.mstatus f.mie f.mip f.mideleg f.privilegeMode).interruptPending = true ↔
      ∃ b ∈ interruptBits, f.Pends b := by
  have hsome : (interruptController f.mstatus f.mie f.mip f.mideleg
      f.privilegeMode).interruptPending = f.firstPending.isSome := by
    rw [interruptController_eq]
    cases f.firstPending <;> rfl
  rw [hsome, firstPending, List.find?_isSome]
  constructor
  · rintro ⟨x, hx, ht⟩
    rw [Bool.and_eq_true, decide_eq_true_iff] at ht
    refine ⟨x.1, ?_, ht.2⟩
    rcases List.mem_append.mp hx with hx | hx
    all_goals
      obtain ⟨b, hb, rfl⟩ := List.mem_map.mp hx
      exact hb
  · rintro ⟨b, hb, hp⟩
    refine ⟨(b, f.delegated b), f.mem_ranked hb, ?_⟩
    rw [beq_self_eq_true, Bool.true_and, decide_eq_true_iff]
    exact hp

/-- What goes on freely masks nothing and enables nothing. -/
theorem pends_tick {f : CsrFile} {i : CsrIn} {b : ℕ} (h : f.Pends b)
    (hm : (f.tick i).mip.getLsbD b = true) : (f.tick i).Pends b := by
  rw [Pends, Bool.and_eq_true, Bool.and_eq_true] at h
  rw [Pends, Bool.and_eq_true, Bool.and_eq_true]
  exact ⟨⟨hm, h.1.2⟩, h.2⟩

end CsrFile

namespace RiscvCpu

variable {s : RiscvCpu} {i : CpuIn} {b : ℕ}

/-- The request of each interrupt: a line, or what software has left pending. -/
def interruptRequest (s : RiscvCpu) (i : CpuIn) : ℕ → Bool
  | 1 => s.csrFile.ssipSoftwarePending
  | 3 => i.machineSoftwareInterrupt
  | 5 => s.csrFile.stipSoftwarePending
  | 7 => i.timerInterrupt
  | 9 => s.csrFile.seipSoftwarePending || i.supervisorExternalInterrupt
  | 11 => i.machineExternalInterrupt
  | _ => false

/-- **`mip` follows the requests**, a cycle behind. -/
theorem mip_next (hb : b ∈ CsrFile.interruptBits) :
    (next s i).csrFile.mip.getLsbD b = interruptRequest s i b := by
  rw [next_csrFile, CsrFile.mip_perform]
  simp only [CsrFile.interruptBits, List.mem_cons, List.not_mem_nil, or_false] at hb
  rcases hb with rfl | rfl | rfl | rfl | rfl | rfl <;>
    simp [CsrFile.tick, interruptRequest, csrIn]

/-- What is pending would wake a core that sleeps. -/
theorem awake_of_pends (hb : b ∈ CsrFile.interruptBits) (h : s.csrFile.Pends b) :
    wfiStall s = false := by
  rw [CsrFile.Pends, Bool.and_eq_true, Bool.and_eq_true] at h
  have hbit : (s.csrFile.mip &&& s.csrFile.mie &&& 0x00000AAA#32).getLsbD b = true := by
    rw [BitVec.getLsbD_and, BitVec.getLsbD_and, h.1.1, h.1.2]
    simp only [CsrFile.interruptBits, List.mem_cons, List.not_mem_nil, or_false] at hb
    rcases hb with rfl | rfl | rfl | rfl | rfl | rfl <;> decide
  have hresume : wfiResumePending s = true := by
    rw [wfiResumePending, bne_iff_ne]
    intro h0
    rw [h0, BitVec.getLsbD_zero] at hbit
    exact Bool.false_ne_true hbit
  rw [wfiStall, hresume, Bool.not_true, Bool.and_false]

section Pending

variable (hb : b ∈ CsrFile.interruptBits) (h : s.csrFile.Pends b)
include hb h

/-- An interrupt that is to be taken makes the controller report one. -/
theorem interruptPending_of_pends : (interrupt s).interruptPending = true :=
  (CsrFile.interruptPending_iff s.csrFile).mpr ⟨b, hb, h⟩

/-- **While an interrupt is to be taken, no instruction leaves EX.** -/
theorem not_issues_of_pends : issues s i = false := by
  by_contra hi
  have hi := Bool.eq_true_of_not_eq_false hi
  rw [issues, Bool.and_eq_true, Bool.and_eq_true, Bool.not_eq_true'] at hi
  obtain ⟨⟨-, ha⟩, hx⟩ := hi
  rw [exMemFlush, Bool.or_eq_false_iff, Bool.or_eq_false_iff, Bool.or_eq_false_iff] at hx
  obtain ⟨⟨⟨hm, hf⟩, -⟩, hint⟩ := hx
  have hnone := interruptPending_of_not_taken ha hint
  have hin : (exIn s i).interruptPending = ((interrupt s).interruptPending &&
    !memStagePageFaultTaken s i && !instrStagePageFaultTaken s i) := rfl
  rw [hin, interruptPending_of_pends hb h, hm, hf] at hnone
  exact Bool.false_ne_true hnone.symm

/-- **The trap that comes is the interrupt's**, unless a page fault goes before it. -/
theorem interruptTaken_of_pends (hx : exMemFlush s i = true)
    (hm : memStagePageFaultTaken s i = false) (hf : instrStagePageFaultTaken s i = false) :
    interruptTakenQualified s i = true := by
  have hsync : synchronousExceptionTaken s i = false := by
    cases ha : exStageActive s i
    · exact (exOut_of_held ha).2.1
    · have hp : (exIn s i).interruptPending = true := by
        have hin : (exIn s i).interruptPending = ((interrupt s).interruptPending &&
          !memStagePageFaultTaken s i && !instrStagePageFaultTaken s i) := rfl
        rw [hin, interruptPending_of_pends hb h, hm, hf]
        rfl
      have hout := executionUnit_interrupt hp ha
      rw [synchronousExceptionTaken, exOut, hout]
      rfl
  rwa [exMemFlush, hm, hf, hsync, Bool.false_or, Bool.false_or, Bool.false_or] at hx

/-- It is that of the first interrupt to be taken. -/
theorem redirect?_of_pends (hx : exMemFlush s i = true)
    (hm : memStagePageFaultTaken s i = false) (hf : instrStagePageFaultTaken s i = false) :
    ∃ x, s.csrFile.firstPending = some x ∧ redirect? s i = some
      ⟨⟨x.2, interruptPc s, 0x80000000#32 + BitVec.ofNat 32 x.1, none⟩, interruptVector s⟩ := by
  have hint := interruptTaken_of_pends hb h hx hm hf
  have hp := interruptPending_of_pends hb h
  have ho : interrupt s = _ := CsrFile.interruptController_eq s.csrFile
  rcases hfirst : s.csrFile.firstPending with _ | x
  · rw [ho, hfirst] at hp
    exact absurd hp Bool.false_ne_true
  · refine ⟨x, rfl, ?_⟩
    rw [redirect?, hm, hf, hint, if_neg Bool.false_ne_true, if_neg Bool.false_ne_true,
      if_pos rfl, interruptTrap, ho, hfirst]
    rfl

/-- Without a squash the core stands still, and the interrupt stays pending with its request. -/
theorem pends_next {programPc : Word} (hfront : FrontInv s programPc)
    (hx : exMemFlush s i = false) (hr : interruptRequest s i b = true) :
    Standstill s i ∧ (next s i).csrFile.Pends b := by
  have hst : Standstill s i := ⟨not_issues_of_pends hb h, hx, awake_of_pends hb h⟩
  refine ⟨hst, ?_⟩
  have hm := mip_next (s := s) (i := i) hb
  rw [hst.csrFile hfront] at hm ⊢
  exact CsrFile.pends_tick h (hm.trans hr)

end Pending

end RiscvCpu

end Synapse32
