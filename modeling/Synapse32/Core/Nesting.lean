import Synapse32.Core.Privilege

/-! # Traps and returns nest

A trap and the return that matches it restore the mode and the interrupt enables, and what happens
between them for the other mode leaves the stack of the outer handler alone. Two modes take traps,
so at most one handler of each is open. -/

namespace Synapse32

namespace CsrFile

/-! ## Bracketed runs of the CSR file -/

/-- The inputs that the core can give the CSR file. -/
def Drives (f : CsrFile) (x : CsrIn) : Prop := ∃ s i, s.csrFile = f ∧ RiscvCpu.csrIn s i = x

/-- A trap to S-mode comes from below M-mode. -/
theorem Drives.belowM {f : CsrFile} {x : CsrIn} (h : Drives f x) {t : Trap}
    (ha : f.action x = .trap t) (ht : t.toSupervisor = true) : f.privilegeMode ≠ privM := by
  obtain ⟨s, i, rfl, rfl⟩ := h
  exact RiscvCpu.belowM_of_trap ha ht

/-- **Well-bracketed cycles**: idle ones, and traps with their matching returns and well-bracketed
cycles between. A trap enters no mode whose handler is open already, and no CSR is written. -/
inductive Bracketed : (sOpen mOpen : Bool) → CsrFile → CsrFile → Prop
  | refl {sOpen mOpen : Bool} {f : CsrFile} : Bracketed sOpen mOpen f f
  | idle {sOpen mOpen : Bool} {f g : CsrFile} {x : CsrIn} (before : Bracketed sOpen mOpen f g)
      (drives : Drives g x) (none : g.action x = .none) : Bracketed sOpen mOpen f (g.next x)
  | supervisor {mOpen : Bool} {f g k : CsrFile} {x y : CsrIn} {t : Trap}
      (before : Bracketed false mOpen f g) (drives : Drives g x) (entry : g.action x = .trap t)
      (mode : t.toSupervisor = true) (body : Bracketed true mOpen (g.next x) k)
      (ret : k.action y = .sret) : Bracketed false mOpen f (k.next y)
  | machine {sOpen : Bool} {f g k : CsrFile} {x y : CsrIn} {t : Trap}
      (before : Bracketed sOpen false f g) (drives : Drives g x) (entry : g.action x = .trap t)
      (mode : t.toSupervisor = false) (body : Bracketed sOpen true (g.next x) k)
      (ret : k.action y = .mret) : Bracketed sOpen false f (k.next y)

/-- What a trap into S-mode saves: SPIE, SPP, `sepc` and `scause`. -/
def supervisorStack (f : CsrFile) : Bool × Bool × Word × Word :=
  (f.mstatus.getLsbD 5, f.mstatus.getLsbD 8, f.sepc, f.scause)

/-- What a trap into M-mode saves: MPIE, MPP, `mepc` and `mcause`. -/
def machineStack (f : CsrFile) : Bool × BitVec 2 × Word × Word :=
  (f.mstatus.getLsbD 7, mpp f.mstatus, f.mepc, f.mcause)

/-- The mode and the two interrupt enables. -/
def enables (f : CsrFile) : BitVec 2 × Bool × Bool :=
  (f.privilegeMode, f.mstatus.getLsbD 3, f.mstatus.getLsbD 1)

/-! ## Entries and returns -/

variable {f g : CsrFile} {x : CsrIn} {t : Trap}

/-- An idle cycle changes none of this. -/
theorem next_of_none (h : f.action x = .none) :
    enables (f.next x) = enables f ∧ supervisorStack (f.next x) = supervisorStack f ∧
      machineStack (f.next x) = machineStack f := by
  rw [next_eq_perform, h]
  exact ⟨rfl, rfl, rfl⟩

/-- **Entry to S-mode** saves the mode and SIE and clears SIE; MIE and the machine stack stay. -/
theorem next_of_trapS (h : f.action x = .trap t) (ht : t.toSupervisor = true) :
    enables (f.next x) = (privS, f.mstatus.getLsbD 3, false) ∧
      supervisorStack (f.next x) =
        (f.mstatus.getLsbD 1, f.privilegeMode == privS, t.epc, t.cause) ∧
      machineStack (f.next x) = machineStack f := by
  have hm : (f.next x).mstatus = pushS f.mstatus f.privilegeMode := by
    rw [next_eq_perform, h]
    change (CsrFile.enter _ t).mstatus = _
    rw [enter_mstatus, if_pos ht]
    rfl
  have hp : (f.next x).privilegeMode = privS := by
    rw [next_eq_perform, h]
    change (CsrFile.enter _ t).privilegeMode = _
    rw [enter_privilegeMode, if_pos ht]
  -- Entry to S-mode writes `sepc` and `scause`, and not the machine's.
  have hrest : (f.next x).sepc = t.epc ∧ (f.next x).scause = t.cause ∧
      (f.next x).mepc = f.mepc ∧ (f.next x).mcause = f.mcause := by
    rw [next_eq_perform, h]
    change (CsrFile.enter _ t).sepc = _ ∧ (CsrFile.enter _ t).scause = _ ∧
      (CsrFile.enter _ t).mepc = _ ∧ (CsrFile.enter _ t).mcause = _
    unfold enter
    rw [if_pos ht]
    exact ⟨rfl, rfl, rfl, rfl⟩
  obtain ⟨hsepc, hscause, hmepc, hmcause⟩ := hrest
  refine ⟨?_, ?_, ?_⟩
  · rw [enables, hm, hp, getLsbD_pushS, getLsbD_pushS]
    rfl
  · rw [supervisorStack, hm, hsepc, hscause, getLsbD_pushS, getLsbD_pushS]
    rfl
  · rw [machineStack, hm, hmepc, hmcause, getLsbD_pushS, mpp_pushS]
    rfl

/-- **Entry to M-mode** saves the mode and MIE and clears MIE; SIE and the supervisor stack stay. -/
theorem next_of_trapM (h : f.action x = .trap t) (ht : t.toSupervisor = false) :
    enables (f.next x) = (privM, false, f.mstatus.getLsbD 1) ∧
      machineStack (f.next x) = (f.mstatus.getLsbD 3, f.privilegeMode, t.epc, t.cause) ∧
      supervisorStack (f.next x) = supervisorStack f := by
  have hne : ¬ t.toSupervisor = true := by rw [ht]; exact Bool.false_ne_true
  have hm : (f.next x).mstatus = pushM f.mstatus f.privilegeMode := by
    rw [next_eq_perform, h]
    change (CsrFile.enter _ t).mstatus = _
    rw [enter_mstatus, if_neg hne]
    rfl
  have hp : (f.next x).privilegeMode = privM := by
    rw [next_eq_perform, h]
    change (CsrFile.enter _ t).privilegeMode = _
    rw [enter_privilegeMode, if_neg hne]
  -- Entry to M-mode writes `mepc` and `mcause`, and not the supervisor's.
  have hrest : (f.next x).mepc = t.epc ∧ (f.next x).mcause = t.cause ∧
      (f.next x).sepc = f.sepc ∧ (f.next x).scause = f.scause := by
    rw [next_eq_perform, h]
    change (CsrFile.enter _ t).mepc = _ ∧ (CsrFile.enter _ t).mcause = _ ∧
      (CsrFile.enter _ t).sepc = _ ∧ (CsrFile.enter _ t).scause = _
    unfold enter
    rw [if_neg hne]
    exact ⟨rfl, rfl, rfl, rfl⟩
  obtain ⟨hmepc, hmcause, hsepc, hscause⟩ := hrest
  refine ⟨?_, ?_, ?_⟩
  · rw [enables, hm, hp, getLsbD_pushM, getLsbD_pushM]
    rfl
  · rw [machineStack, hm, hmepc, hmcause, getLsbD_pushM, mpp_pushM]
    rfl
  · rw [supervisorStack, hm, hsepc, hscause, getLsbD_pushM, getLsbD_pushM]
    rfl

/-- **SRET** restores the mode and SIE from the supervisor stack; MIE and the machine stack stay. -/
theorem next_of_sret (h : f.action x = .sret) :
    enables (f.next x) = (if (supervisorStack f).2.1 then privS else privU,
        f.mstatus.getLsbD 3, (supervisorStack f).1) ∧
      machineStack (f.next x) = machineStack f := by
  have hm : (f.next x).mstatus = f.sret.mstatus := by
    rw [next_eq_perform, h]
    rfl
  have hrest : (f.next x).privilegeMode = (if f.mstatus.getLsbD 8 then privS else privU) ∧
      (f.next x).mepc = f.mepc ∧ (f.next x).mcause = f.mcause := by
    rw [next_eq_perform, h]
    exact ⟨rfl, rfl, rfl⟩
  obtain ⟨hp, hmepc, hmcause⟩ := hrest
  constructor
  · rw [enables, hm, hp, getLsbD_sret, getLsbD_sret]
    rfl
  · rw [machineStack, hm, hmepc, hmcause, getLsbD_sret, mpp_sret]
    rfl

/-- **MRET** restores the mode and MIE from the machine stack; SIE and the supervisor stack stay. -/
theorem next_of_mret (h : f.action x = .mret) :
    enables (f.next x) = ((machineStack f).2.1, (machineStack f).1, f.mstatus.getLsbD 1) ∧
      supervisorStack (f.next x) = supervisorStack f := by
  have hm : (f.next x).mstatus = f.mret.mstatus := by
    rw [next_eq_perform, h]
    rfl
  have hrest : (f.next x).privilegeMode = mpp f.mstatus ∧
      (f.next x).sepc = f.sepc ∧ (f.next x).scause = f.scause := by
    rw [next_eq_perform, h]
    exact ⟨rfl, rfl, rfl⟩
  obtain ⟨hp, hsepc, hscause⟩ := hrest
  constructor
  · rw [enables, hm, hp, getLsbD_mret, getLsbD_mret]
    simp [machineStack]
  · rw [supervisorStack, hm, hsepc, hscause, getLsbD_mret, getLsbD_mret]
    simp [supervisorStack]

/-! ## Nesting -/

/-- **What a bracketed sequence restores**: the mode and both enables, and the stack of each mode
whose handler is open around it. -/
structure Restores (sOpen mOpen : Bool) (f g : CsrFile) : Prop where
  enables : g.enables = f.enables
  supervisor : sOpen = true → g.supervisorStack = f.supervisorStack
  machine : mOpen = true → g.machineStack = f.machineStack

/-- S-mode or U-mode is what SPP says. -/
theorem mode_of_spp {m : BitVec 2} (ha : architected m = true) (hm : m ≠ privM) :
    (if m == privS then privS else privU) = m := by
  revert ha hm
  revert m
  decide

/-- A trap leads to S-mode or M-mode. -/
theorem architected_next_of_trap (h : f.action x = .trap t) :
    architected (f.next x).privilegeMode = true := by
  rw [next_eq_perform, h]
  show architected (CsrFile.enter _ t).privilegeMode = true
  rw [enter_privilegeMode]
  split <;> rfl

/-- **A well-bracketed sequence restores**, by induction on its brackets. -/
theorem Bracketed.restores {sOpen mOpen : Bool} {f g : CsrFile}
    (h : Bracketed sOpen mOpen f g) (hmode : architected f.privilegeMode = true) :
    Restores sOpen mOpen f g := by
  -- The body of a handler is a sequence of its own, whose stack the handler's entry has written.
  induction h with
  | refl => exact ⟨rfl, fun _ => rfl, fun _ => rfl⟩
  | idle before drives none ih =>
    obtain ⟨he, hs, hm⟩ := next_of_none none
    have ih := ih hmode
    exact ⟨he.trans ih.enables, fun hS => hs.trans (ih.supervisor hS),
      fun hM => hm.trans (ih.machine hM)⟩
  | @supervisor mOpen f g k x y t before drives entry mode body ret ihb ihh =>
    have hb := ihb hmode
    have hgmode : g.privilegeMode = f.privilegeMode := congrArg Prod.fst hb.enables
    obtain ⟨hent, hstack, hother⟩ := next_of_trapS entry mode
    have hh := ihh (architected_next_of_trap entry)
    obtain ⟨hret, hkeep⟩ := next_of_sret ret
    refine ⟨?_, nofun, fun hM => ?_⟩
    · -- SPP and SPIE are what the entry saved, and MIE has come back to what it was.
      have hkstack := (hh.supervisor rfl).trans hstack
      have hkmie : k.mstatus.getLsbD 3 = g.mstatus.getLsbD 3 :=
        (congrArg (fun e => e.2.1) hh.enables).trans (congrArg (fun e => e.2.1) hent)
      have hspp : (if g.privilegeMode == privS then privS else privU) = g.privilegeMode :=
        mode_of_spp (hgmode ▸ hmode) (drives.belowM entry mode)
      rw [hret, hkstack, hkmie]
      change (if g.privilegeMode == privS then privS else privU, _, _) = _
      rw [hspp]
      exact hb.enables
    · exact hkeep.trans ((hh.machine hM).trans (hother.trans (hb.machine hM)))
  | @machine sOpen f g k x y t before drives entry mode body ret ihb ihh =>
    have hb := ihb hmode
    obtain ⟨hent, hstack, hother⟩ := next_of_trapM entry mode
    have hh := ihh (architected_next_of_trap entry)
    obtain ⟨hret, hkeep⟩ := next_of_mret ret
    refine ⟨?_, fun hS => ?_, nofun⟩
    · -- MPP and MPIE are what the entry saved, and SIE has come back to what it was.
      have hkstack := (hh.machine rfl).trans hstack
      have hksie : k.mstatus.getLsbD 1 = g.mstatus.getLsbD 1 :=
        (congrArg (fun e => e.2.2) hh.enables).trans (congrArg (fun e => e.2.2) hent)
      rw [hret, hkstack, hksie]
      exact hb.enables
    · exact hkeep.trans ((hh.supervisor hS).trans (hother.trans (hb.supervisor hS)))

/-- **Traps and returns nest.** From any state in U-, S- or M-mode, a well-bracketed sequence leaves
the mode, MIE and SIE as they were. Inside a handler, after any well-bracketed sequence the stack of
its mode, `epc` and `cause` included, is what the handler's own entry has written. -/
theorem traps_nest {f : CsrFile} (hmode : architected f.privilegeMode = true) :
    (∀ g, Bracketed false false f g → g.enables = f.enables) ∧
      (∀ x t mOpen g, Drives f x → f.action x = .trap t → t.toSupervisor = true →
        Bracketed true mOpen (f.next x) g →
          g.supervisorStack = (f.mstatus.getLsbD 1, f.privilegeMode == privS, t.epc, t.cause)) ∧
      (∀ x t sOpen g, Drives f x → f.action x = .trap t → t.toSupervisor = false →
        Bracketed sOpen true (f.next x) g →
          g.machineStack = (f.mstatus.getLsbD 3, f.privilegeMode, t.epc, t.cause)) := by
  refine ⟨fun g h => (h.restores hmode).enables, ?_, ?_⟩
  · intro x t mOpen g _ ha ht h
    obtain ⟨-, hstack, -⟩ := next_of_trapS ha ht
    exact ((h.restores (architected_next_of_trap ha)).supervisor rfl).trans hstack
  · intro x t sOpen g _ ha ht h
    obtain ⟨-, hstack, -⟩ := next_of_trapM ha ht
    exact ((h.restores (architected_next_of_trap ha)).machine rfl).trans hstack

end CsrFile

namespace RiscvCpu

open CsrFile

/-- `csrw medeleg` delegates the `ecall` of U-mode, which SRET then enters. It makes an `ecall`,
whose handler in S-mode makes another one to M-mode; MRET and SRET return from them. -/
def nestedEcalls (n : ℕ) : CpuIn :=
  quietFetch ([0x10000093#32, 0x30209073#32, nopInstr, nopInstr, 0x10200073#32, nopInstr, nopInstr,
    0x00000073#32, nopInstr, nopInstr, 0x00000073#32, nopInstr, nopInstr, 0x30200073#32, nopInstr,
    nopInstr, 0x10200073#32].getD n nopInstr)

/-- The CSR file before cycle `n` of that run. -/
def nestedCsr (n : ℕ) : CsrFile := (run nestedEcalls n).csrFile

/-- What it gets in that cycle. -/
def nestedIn (n : ℕ) : CsrIn := csrIn (run nestedEcalls n) (nestedEcalls n)

/-- The core drives it so. -/
theorem nestedCsr_drives (n : ℕ) : Drives (nestedCsr n) (nestedIn n) := ⟨_, _, rfl, rfl⟩

/-- It goes on with what it gets. -/
theorem nestedCsr_succ (n : ℕ) : (nestedCsr n).next (nestedIn n) = nestedCsr (n + 1) := rfl

/-- One more idle cycle. -/
theorem nestedCsr_idle {sOpen mOpen : Bool} {f : CsrFile} {n : ℕ}
    (h : Bracketed sOpen mOpen f (nestedCsr n))
    (hn : (nestedCsr n).action (nestedIn n) = .none) :
    Bracketed sOpen mOpen f (nestedCsr (n + 1)) :=
  h.idle (nestedCsr_drives n) hn

/-- The handler of cycles 10 to 17, with that of cycles 13 and 14 inside. -/
theorem bracketed_nestedEcalls : Bracketed true false (nestedCsr 10) (nestedCsr 18) := by
  have hidle : ∀ n ∈ [10, 11, 13, 14, 16, 17], (nestedCsr n).action (nestedIn n) = .none := by
    decide +kernel
  have hentry : (nestedCsr 12).action (nestedIn 12) = .trap ⟨false, 0#32, 9#32, some 0#32⟩ := by
    decide +kernel
  have hret : (nestedCsr 15).action (nestedIn 15) = .mret := by decide +kernel
  have hbefore : Bracketed true false (nestedCsr 10) (nestedCsr 12) :=
    nestedCsr_idle (nestedCsr_idle .refl (hidle 10 (by simp))) (hidle 11 (by simp))
  have hbody : Bracketed true true ((nestedCsr 12).next (nestedIn 12)) (nestedCsr 15) := by
    rw [nestedCsr_succ]
    exact nestedCsr_idle (nestedCsr_idle .refl (hidle 13 (by simp))) (hidle 14 (by simp))
  have hinner : Bracketed true false (nestedCsr 10) (nestedCsr 16) := by
    rw [← nestedCsr_succ 15]
    exact .machine hbefore (nestedCsr_drives 12) hentry rfl hbody hret
  exact nestedCsr_idle (nestedCsr_idle hinner (hidle 16 (by simp))) (hidle 17 (by simp))

/-- The SRET of cycle 18 restores what the `ecall` of cycle 9 starts with; and in spite of the
handler inside, the stack of S-mode is then still that of this `ecall`. -/
theorem traps_nest_nestedEcalls :
    (nestedCsr 19).enables = (nestedCsr 9).enables ∧
      (nestedCsr 18).supervisorStack = (false, false, 0#32, 8#32) := by
  have hentry : (nestedCsr 9).action (nestedIn 9) = .trap ⟨true, 0#32, 8#32, some 0#32⟩ := by
    decide +kernel
  have hret : (nestedCsr 18).action (nestedIn 18) = .sret := by decide +kernel
  obtain ⟨henables, hstack, -⟩ := traps_nest (f := nestedCsr 9) (by decide +kernel)
  have hbody : Bracketed true false ((nestedCsr 9).next (nestedIn 9)) (nestedCsr 18) := by
    rw [nestedCsr_succ]
    exact bracketed_nestedEcalls
  have hsaved :
      ((nestedCsr 9).mstatus.getLsbD 1, (nestedCsr 9).privilegeMode == privS, 0#32, 8#32) =
        (false, false, 0#32, 8#32) := by decide +kernel
  constructor
  · rw [← nestedCsr_succ 18]
    exact henables _ (.supervisor .refl (nestedCsr_drives 9) hentry rfl hbody hret)
  · rw [← hsaved]
    exact hstack _ _ _ _ (nestedCsr_drives 9) hentry rfl hbody

end RiscvCpu

end Synapse32
