import Synapse32.Core.Fences

/-! # The fetched path

What IF/ID accepts and EX lets go, in order: the words fetched along the path of the PC, less what a
redirect flushes. -/

namespace Synapse32

namespace RiscvCpu

variable {s : RiscvCpu} {i : CpuIn}

/-- An instruction in IF/ID or in EX: its address, its word, and whether its fetch page-faulted. -/
structure FetchSlot where
  pc : Word
  word : Word
  fault : Bool

/-- The instruction that IF/ID accepts in the cycle. -/
def accepted (s : RiscvCpu) (i : CpuIn) : List FetchSlot :=
  if !jSignal s i && !pipelineStall s i && !fetchWait s i then
    [⟨s.pc, i.instrIn, i.instrPageFaultIn⟩]
  else []

/-- The instruction in EX. -/
def exSlot (s : RiscvCpu) : List FetchSlot :=
  if s.idEx.instrValid then [⟨s.idEx.pc, s.idEx.instr, s.idEx.instrPageFault⟩] else []

/-- The instruction in IF/ID. -/
def idSlot (s : RiscvCpu) : List FetchSlot :=
  if s.ifId.instructionValid then [⟨s.ifId.pc, s.ifId.instruction, s.ifId.instrPageFault⟩] else []

/-- The accepted instructions that have not left EX, the oldest first. -/
def heldSlots (s : RiscvCpu) : List FetchSlot := exSlot s ++ idSlot s

/-- The instruction in EX leaves it, to go on or to trap. An interrupt or a page fault of an older
access flushes it instead. -/
def leaves (s : RiscvCpu) (i : CpuIn) : Bool :=
  s.idEx.instrValid && exStageActive s i && !memStagePageFaultTaken s i &&
    !interruptTakenQualified s i

/-- The instruction that leaves EX in the cycle. -/
def left (s : RiscvCpu) (i : CpuIn) : List FetchSlot := if leaves s i then exSlot s else []

/-- **The path**: the address of the next instruction to leave EX. -/
def pathPc (ins : ℕ → CpuIn) : ℕ → Word
  | 0 => reset.pc
  | n + 1 =>
    if jSignal (run ins n) (ins n) then jump (run ins n) (ins n)
    else if leaves (run ins n) (ins n) then pathPc ins n + 4#32
    else pathPc ins n

/-! ## One cycle -/

/-- What IF/ID accepts is at the PC, with no redirect and no wait. -/
theorem of_mem_accepted {e : FetchSlot} (he : e ∈ accepted s i) :
    jSignal s i = false ∧ fetchWait s i = false ∧ e = ⟨s.pc, i.instrIn, i.instrPageFaultIn⟩ := by
  unfold accepted at he
  split at he
  · rename_i hc
    simp only [Bool.and_eq_true, Bool.not_eq_true'] at hc
    exact ⟨hc.1.1, hc.2, List.mem_singleton.mp he⟩
  · cases he

/-- Without a response IF/ID accepts a page fault at most. -/
theorem fetchResponseValid_of_accepted {e : FetchSlot} (he : e ∈ accepted s i)
    (hf : e.fault = false) : fetchResponseValid s i = true := by
  obtain ⟨-, hw, rfl⟩ := of_mem_accepted he
  have hf : i.instrPageFaultIn = false := hf
  simpa [fetchWait, hf] using hw

/-- An interrupt that is taken redirects. -/
theorem jSignal_of_interrupt (h : interruptTakenQualified s i = true) : jSignal s i = true := by
  simp [jSignal, exOut_of_interrupt h, ExecutionUnit.redirect]

/-- A front end that moves without a redirect lets the instruction in EX go. -/
theorem leaves_of_move (hj : jSignal s i = false) (hh : pipelineHold s i = false) :
    leaves s i = s.idEx.instrValid := by
  have ha := exStageActive_of_not_hold hh
  have hm : memStagePageFaultTaken s i = false := by
    simp only [jSignal, Bool.or_eq_false_iff] at hj
    exact hj.1.1
  have hint : interruptTakenQualified s i = false := by
    by_contra hint
    have := jSignal_of_interrupt (Bool.eq_true_of_not_eq_false hint)
    exact Bool.false_ne_true (hj.symm.trans this)
  simp [leaves, ha, hm, hint]

/-- An instruction that is held does not leave EX. -/
theorem FrontInv.leaves_of_hold {programPc : Word} (h : FrontInv s programPc)
    (hh : pipelineHold s i = true) : leaves s i = false := by
  unfold leaves
  cases hv : s.idEx.instrValid
  · rfl
  · rw [h.exStageActive_of_hold hh hv]
    rfl

/-- **An instruction whose fetch page-faulted leaves EX with a redirect.** -/
theorem jSignal_of_left {e : FetchSlot} (he : e ∈ left s i) (hf : e.fault = true) :
    jSignal s i = true := by
  unfold left at he
  cases hl : leaves s i
  · simp [hl] at he
  simp only [leaves, Bool.and_eq_true, Bool.not_eq_true'] at hl
  obtain ⟨⟨⟨hv, ha⟩, hm⟩, hint⟩ := hl
  have hfault : s.idEx.instrPageFault = true := by
    simp only [exSlot, hv, if_true] at he
    split at he
    · rw [List.mem_singleton.mp he] at hf
      exact hf
    · cases he
  cases ht : executeTriggerHit s i
  · -- the page fault itself
    simp [jSignal, instrStagePageFaultTaken, hfault, hv, ha, ht]
  · -- an execute trigger comes first, and traps as well
    have hjump : (exOut s i).jumpSignal = true := by
      have hse : (exIn s i).stageEnable = true := ha
      have htrig : ExecutionUnit.executeTriggerHit (exIn s i) = true := ht
      unfold exOut executionUnit ExecutionUnit.ungated
      rw [hse, htrig]
      cases (exIn s i).interruptPending <;> rfl
    rw [jSignal, hjump, Bool.or_true]

/-- With no redirect what leaves EX has no fetch fault. -/
theorem fault_of_left {e : FetchSlot} (hj : jSignal s i = false) (he : e ∈ left s i) :
    e.fault = false := by
  by_contra hf
  have := jSignal_of_left he (Bool.eq_true_of_not_eq_false hf)
  exact Bool.false_ne_true (hj.symm.trans this)

/-- When the pipeline moves, the instruction in EX leaves it. -/
theorem left_of_move (hj : jSignal s i = false) (hh : pipelineHold s i = false) :
    left s i = exSlot s := by
  rw [left, leaves_of_move hj hh, exSlot]
  cases s.idEx.instrValid <;> rfl

/-- **What a cycle without a redirect does with EX and IF/ID**: both stay; or the load in EX leaves
it empty; or IF/ID moves into EX, and what it accepts takes its place. -/
theorem slots_next {programPc : Word} (h : FrontInv s programPc) (hj : jSignal s i = false) :
    (left s i = [] ∧ accepted s i = [] ∧ exSlot (next s i) = exSlot s ∧
      idSlot (next s i) = idSlot s) ∨
    (left s i = exSlot s ∧ accepted s i = [] ∧ exSlot (next s i) = [] ∧
      idSlot (next s i) = idSlot s) ∨
    (left s i = exSlot s ∧ exSlot (next s i) = idSlot s ∧ idSlot (next s i) = accepted s i) := by
  rcases front_cases s i with ⟨hj', -⟩ | ⟨-, -, hid, hh, hex⟩ | ⟨-, -, hid, hh, hz, hex⟩ |
    ⟨-, hh, hz, hex, hfetch⟩
  · exact absurd (hj.symm.trans hj') Bool.false_ne_true
  · -- The pipeline stands still.
    left
    refine ⟨?_, ?_, ?_, ?_⟩
    · simp [RiscvCpu.left, h.leaves_of_hold hh]
    · simp [accepted, pipelineStall, hh]
    · rw [exSlot, hex, exSlot]
    · rw [idSlot, hid, idSlot]
  · -- EX leaves a bubble behind it for a load.
    right
    left
    refine ⟨left_of_move hj hh, ?_, ?_, ?_⟩
    · simp [accepted, pipelineStall, hz]
    · rw [exSlot, hex]
      rfl
    · rw [idSlot, hid, idSlot]
  · -- All move on, and IF/ID takes what was fetched or a bubble.
    right
    right
    refine ⟨left_of_move hj hh, ?_, ?_⟩
    · rw [exSlot, hex, idSlot]
      rfl
    · have hstall : pipelineStall s i = false := by rw [pipelineStall, hz, hh]; rfl
      rw [idSlot, accepted, hj, hstall]
      rcases hfetch with ⟨hw, -, hid⟩ | ⟨hw, -, hid⟩
      · rw [hid, hw]
        rfl
      · rw [hid, hw]
        rfl

/-- Without a redirect, what is held and what is accepted is what leaves and what is held then. -/
theorem heldSlots_next {programPc : Word} (h : FrontInv s programPc) (hj : jSignal s i = false) :
    heldSlots s ++ accepted s i = left s i ++ heldSlots (next s i) := by
  unfold heldSlots
  rcases slots_next h hj with ⟨hl, ha, hex, hid⟩ | ⟨hl, ha, hex, hid⟩ | ⟨hl, hex, hid⟩
  · rw [hl, ha, hex, hid, List.append_nil, List.nil_append]
  · rw [hl, ha, hex, hid, List.append_nil, List.nil_append]
  · rw [hl, hex, hid, List.append_assoc]

/-- A redirect flushes everything that has not left EX. -/
theorem heldSlots_of_jSignal (hj : jSignal s i = true) : heldSlots (next s i) = [] := by
  rcases front_cases s i with ⟨-, -, hid, hex⟩ | ⟨hj', -⟩ | ⟨hj', -⟩ | ⟨hj', -⟩
  · simp [heldSlots, exSlot, idSlot, hid, hex, IdEx.bubble]
  all_goals exact absurd (hj'.symm.trans hj) Bool.false_ne_true

/-- What leaves EX is the oldest of what is held. -/
theorem left_prefix_heldSlots : left s i <+: heldSlots s := by
  unfold left heldSlots
  split
  · exact List.prefix_append _ _
  · exact List.nil_prefix

/-- The PC goes on behind an accepted instruction, and to the target of a redirect. -/
theorem pc_next (s : RiscvCpu) (i : CpuIn) : (next s i).pc =
    if jSignal s i then jump s i
    else if (accepted s i).isEmpty then s.pc
    else s.pc + 4#32 := by
  show nextPc s i = _
  unfold nextPc accepted
  cases jSignal s i <;> cases pipelineStall s i <;> cases fetchWait s i <;> rfl

/-! ## Order and path of a run -/

variable (ins : ℕ → CpuIn)

/-- The instructions that have left EX before cycle `n`. -/
def leftLog (n : ℕ) : List FetchSlot := Clocked.log next reset ins left n

/-- The instructions accepted before cycle `n`, less those that a redirect has flushed. -/
def keptLog (n : ℕ) : List FetchSlot :=
  Clocked.kept next reset ins accepted left jSignal n

/-- **Run lemma.** The front end holds the instructions of the path. -/
theorem frontInv_pathPc (n : ℕ) : FrontInv (run ins n) (pathPc ins n) := by
  induction n with
  | zero => exact idle_reset.front
  | succ n ih =>
    have hnext : nextProgramPc (run ins n) (ins n) (pathPc ins n) = pathPc ins (n + 1) := by
      rw [nextProgramPc, pathPc]
      cases hj : jSignal (run ins n) (ins n)
      · -- Without a redirect, what leaves EX is issued to MEM.
        rw [if_neg Bool.false_ne_true, if_neg Bool.false_ne_true]
        cases hh : pipelineHold (run ins n) (ins n)
        · rw [issues_of_not_hold hj hh, leaves_of_move hj hh]
        · rw [ih.issues_of_hold hh, ih.leaves_of_hold hh]
      · rw [if_pos rfl, if_pos rfl]
    rw [← hnext]
    exact ih.next

/-- **Nothing is lost, repeated or reordered** between IF/ID and the end of EX. -/
theorem leftLog_append_held (n : ℕ) : leftLog ins n ++ heldSlots (run ins n) = keptLog ins n := by
  apply Clocked.log_append_held ins heldSlots accepted left jSignal
  · rfl
  · intro m _ hj
    exact heldSlots_next (frontInv_pathPc ins m) hj
  · intro m _ hj
    exact ⟨left_prefix_heldSlots, heldSlots_of_jSignal hj⟩

/-- The held instructions and the PC are consecutive, from the path's address on. -/
theorem FrontInv.consecutive {programPc : Word} (h : FrontInv s programPc) :
    (heldSlots s).map (·.pc) ++ [s.pc] =
      (List.range ((heldSlots s).length + 1)).map fun k => programPc + BitVec.ofNat 32 (4 * k) := by
  have hex := h.ex
  have hid := h.id
  have hpc := h.pc
  unfold heldSlots exSlot idSlot
  cases hve : s.idEx.instrValid <;> cases hvi : s.ifId.instructionValid <;>
    simp_all [List.range_succ, BitVec.add_assoc]

/-! ## The words -/

/-- **The word was fetched for its address**: it was accepted before cycle `n`, as the answer to a
fetch that was granted while the PC was there, with no redirect since. -/
def FetchedFor (n : ℕ) (e : FetchSlot) : Prop :=
  ∃ k < n, e ∈ accepted (run ins k) (ins k) ∧
    fetchResponseValid (run ins k) (ins k) = true ∧
    ∃ g, answeredGrant ins k = some g ∧ (run ins g).pc = e.pc ∧
      ∀ t, g ≤ t → t ≤ k → jSignal (run ins t) (ins t) = false

variable {ins}

/-- A word that was fetched for its address stays so. -/
theorem FetchedFor.mono {n m : ℕ} {e : FetchSlot} (h : FetchedFor ins n e) (hnm : n ≤ m) :
    FetchedFor ins m e := by
  obtain ⟨k, hk, hrest⟩ := h
  exact ⟨k, by omega, hrest⟩

/-- What the fetch side satisfies before cycle `n`: the fetch that is out is one of the PC, unless
it is to be discarded or a page fault has let the PC go on without it; and the words in EX and IF/ID
were fetched for their addresses, save one behind a page fault. -/
structure FetchInv (ins : ℕ → CpuIn) (n : ℕ) : Prop where
  out : ∀ g, grantCycle ins n = some g → (run ins n).fetchDiscard = false →
    (run ins g).pc = (run ins n).pc ∨ ∃ e ∈ heldSlots (run ins n), e.fault = true
  ex : ∀ e ∈ exSlot (run ins n), e.fault = false → FetchedFor ins n e
  id : ∀ e ∈ idSlot (run ins n), e.fault = false →
    (∀ x ∈ exSlot (run ins n), x.fault = false) → FetchedFor ins n e

/-- A page fault stays in the front end until a redirect. -/
theorem fault_next {programPc : Word} (h : FrontInv s programPc) (hj : jSignal s i = false)
    {e : FetchSlot} (he : e ∈ heldSlots s ++ accepted s i) (hf : e.fault = true) :
    e ∈ heldSlots (next s i) := by
  rw [heldSlots_next h hj, List.mem_append] at he
  rcases he with he | he
  · exact absurd (hj.symm.trans (jSignal_of_left he hf)) Bool.false_ne_true
  · exact he

/-- **The fetch that is out** is for the PC, unless a fetch fault is held. -/
theorem FetchInv.out_next {n : ℕ} (h : FetchInv ins n) (g : ℕ)
    (hg : grantCycle ins (n + 1) = some g) (hd : (run ins (n + 1)).fetchDiscard = false) :
    (run ins g).pc = (run ins (n + 1)).pc ∨
      ∃ e ∈ heldSlots (run ins (n + 1)), e.fault = true := by
  have hfront := frontInv_pathPc ins n
  have hans : answeredGrant ins n = some g ∧ (ins n).instrRvalidIn = false := by
    rw [grantCycle] at hg
    split at hg
    · cases hg
    · rename_i hr
      exact ⟨by rw [answeredGrant]; exact hg, Bool.eq_false_of_not_eq_true hr⟩
  obtain ⟨hans, hr⟩ := hans
  -- A redirect would have marked the fetch.
  have hj : jSignal (run ins n) (ins n) = false := by
    by_contra hj
    have := fetchDiscard_run (Bool.eq_true_of_not_eq_false hj) (answeredGrant_le hans)
      (Nat.lt_succ_self n) hg
    exact Bool.false_ne_true (hd.symm.trans this)
  have hold : (run ins g).pc = (run ins n).pc ∨ ∃ e ∈ heldSlots (run ins n), e.fault = true := by
    rw [answeredGrant] at hans
    split at hans
    · obtain rfl := Option.some.inj hans
      exact Or.inl rfl
    · refine h.out g hans ?_
      have hd : nextFetchDiscard (run ins n) (ins n) = false := hd
      simpa [nextFetchDiscard, hj, hr] using hd
  rcases hold with hpc | ⟨e, he, hf⟩
  · -- The PC stays, or a page fault is accepted in place of the word.
    have hnext := pc_next (run ins n) (ins n)
    rw [hj, if_neg Bool.false_ne_true] at hnext
    cases hacc : accepted (run ins n) (ins n) with
    | nil =>
      left
      rw [hacc] at hnext
      exact hpc.trans hnext.symm
    | cons e es =>
      right
      have hmem : e ∈ accepted (run ins n) (ins n) := by rw [hacc]; exact List.mem_cons_self
      have hf : e.fault = true := by
        by_contra hf
        have hv := fetchResponseValid_of_accepted hmem (Bool.eq_false_of_not_eq_true hf)
        rw [fetchResponseValid, hr, Bool.false_and] at hv
        exact Bool.false_ne_true hv
      exact ⟨e, fault_next hfront hj (List.mem_append_right _ hmem) hf, hf⟩
  · exact Or.inr ⟨e, fault_next hfront hj (List.mem_append_left _ he) hf, hf⟩

/-- **A word that is accepted was fetched for its address**, unless a page fault is ahead of it. -/
theorem FetchInv.fetched {n : ℕ} (h : FetchInv ins n)
    (hans : (ins n).instrRvalidIn = true → (answeredGrant ins n).isSome = true)
    {e : FetchSlot} (he : e ∈ accepted (run ins n) (ins n)) (hf : e.fault = false)
    (hahead : ∀ x ∈ heldSlots (run ins n), x.fault = false) : FetchedFor ins (n + 1) e := by
  have hv := fetchResponseValid_of_accepted he hf
  obtain ⟨hj, -, hslot⟩ := of_mem_accepted he
  obtain ⟨hr, hdisc⟩ : (ins n).instrRvalidIn = true ∧ (run ins n).fetchDiscard = false := by
    simpa [fetchResponseValid] using hv
  obtain ⟨g, hg⟩ := Option.isSome_iff_exists.mp (hans hr)
  refine ⟨n, Nat.lt_succ_self n, he, hv, g, hg, ?_, ?_⟩
  · rw [hslot]
    show (run ins g).pc = (run ins n).pc
    rw [answeredGrant] at hg
    split at hg
    · obtain rfl := Option.some.inj hg
      rfl
    · rcases h.out g hg hdisc with hpc | ⟨x, hx, hxf⟩
      · exact hpc
      · exact absurd ((hahead x hx).symm.trans hxf) Bool.false_ne_true
  · intro t hgt htn
    rcases Nat.eq_or_lt_of_le htn with rfl | hlt
    · exact hj
    · by_contra ht
      have := lt_of_answeredGrant (Bool.eq_true_of_not_eq_false ht) hlt hv hg
      omega

/-- **Step.** -/
theorem FetchInv.next {n : ℕ} (h : FetchInv ins n)
    (hans : (ins n).instrRvalidIn = true → (answeredGrant ins n).isSome = true) :
    FetchInv ins (n + 1) := by
  have hrun : run ins (n + 1) = RiscvCpu.next (run ins n) (ins n) := rfl
  have hmono : ∀ e, FetchedFor ins n e → FetchedFor ins (n + 1) e := fun _ he =>
    he.mono (Nat.le_succ n)
  suffices hslots : (∀ e ∈ exSlot (run ins (n + 1)), e.fault = false → FetchedFor ins (n + 1) e) ∧
      ∀ e ∈ idSlot (run ins (n + 1)), e.fault = false →
        (∀ x ∈ exSlot (run ins (n + 1)), x.fault = false) → FetchedFor ins (n + 1) e from
    ⟨h.out_next, hslots.1, hslots.2⟩
  cases hj : jSignal (run ins n) (ins n)
  · have hgone : ∀ x ∈ left (run ins n) (ins n), x.fault = false := fun _ hx =>
      fault_of_left hj hx
    rcases slots_next (frontInv_pathPc ins n) hj with ⟨-, -, hex, hid⟩ | ⟨hl, -, hex, hid⟩ |
      ⟨hl, hex, hid⟩
    · rw [hrun, hex, hid]
      exact ⟨fun e he hf => hmono e (h.ex e he hf), fun e he hf hx => hmono e (h.id e he hf hx)⟩
    · -- The load has left EX without a trap.
      rw [hl] at hgone
      rw [hrun, hex, hid]
      exact ⟨nofun, fun e he hf _ => hmono e (h.id e he hf hgone)⟩
    · -- So has what was ahead of IF/ID.
      rw [hl] at hgone
      rw [hrun, hex, hid]
      refine ⟨fun e he hf => hmono e (h.id e he hf hgone), fun e he hf hahead => ?_⟩
      refine h.fetched hans he hf fun x hx => ?_
      rw [heldSlots, List.mem_append] at hx
      exact hx.elim (hgone x) (hahead x)
  · -- A redirect leaves nothing in EX and IF/ID.
    have hnil : heldSlots (run ins (n + 1)) = [] := heldSlots_of_jSignal hj
    rw [heldSlots, List.append_eq_nil_iff] at hnil
    rw [hnil.1, hnil.2]
    exact ⟨nofun, nofun⟩

/-- **Run.** On a port whose answers are to granted fetches. -/
theorem fetchInv_run
    (hans : ∀ n, (ins n).instrRvalidIn = true → (answeredGrant ins n).isSome = true) (n : ℕ) :
    FetchInv ins n := by
  induction n with
  | zero =>
    refine ⟨?_, ?_, ?_⟩
    · exact fun g hg => nomatch hg
    · exact nofun
    · exact nofun
  | succ n ih => exact ih.next (hans n)

/-- What leaves EX is in EX. -/
theorem mem_exSlot_of_left {e : FetchSlot} (he : e ∈ left s i) : e ∈ exSlot s := by
  unfold left at he
  split at he
  · exact he
  · cases he

/-- **The words that left EX were fetched for their addresses**, all but page faults. -/
theorem fetchedFor_of_leftLog (h : ∀ n, FetchInv ins n) {n : ℕ} {e : FetchSlot}
    (he : e ∈ leftLog ins n) (hf : e.fault = false) : FetchedFor ins n e := by
  induction n with
  | zero => cases he
  | succ n ih =>
    rw [leftLog, Clocked.log_succ, List.mem_append] at he
    rcases he with he | he
    · exact (ih he).mono (Nat.le_succ n)
    · exact ((h n).ex e (mem_exSlot_of_left he) hf).mono (Nat.le_succ n)

/-- **What leaves EX is at the path's address.** -/
theorem pc_of_left {n : ℕ} {e : FetchSlot} (he : e ∈ left (run ins n) (ins n)) :
    e.pc = pathPc ins n := by
  have he := mem_exSlot_of_left he
  unfold exSlot at he
  split at he
  · rename_i hv
    rw [List.mem_singleton.mp he]
    exact (frontInv_pathPc ins n).ex hv
  · cases he

/-- **The answer to a fetch that a redirect has overtaken is not accepted.** -/
theorem fault_of_stale {n t g : ℕ} (hj : jSignal (run ins t) (ins t) = true) (hgt : g ≤ t)
    (htn : t ≤ n) (hg : answeredGrant ins n = some g) {e : FetchSlot}
    (he : e ∈ accepted (run ins n) (ins n)) : e.fault = true := by
  by_contra hf
  rcases Nat.eq_or_lt_of_le htn with rfl | hlt
  · exact Bool.false_ne_true ((of_mem_accepted he).1.symm.trans hj)
  · have hv := fetchResponseValid_of_accepted he (Bool.eq_false_of_not_eq_true hf)
    have := lt_of_answeredGrant hj hlt hv hg
    omega

/-- **The core fetches the program's path**, up to cycle `n`. -/
structure FetchesPath (ins : ℕ → CpuIn) (n : ℕ) : Prop where
  /-- What has left EX, and behind it what EX and IF/ID hold, is what was accepted and not flushed,
  in order. -/
  order : leftLog ins n ++ heldSlots (run ins n) = keptLog ins n
  /-- What leaves EX is at the path's address. -/
  path : ∀ m < n, ∀ e ∈ left (run ins m) (ins m), e.pc = pathPc ins m
  /-- What is held, and the PC behind it, follow on the path. -/
  ahead : (heldSlots (run ins n)).map (·.pc) ++ [(run ins n).pc] =
    (List.range ((heldSlots (run ins n)).length + 1)).map fun k =>
      pathPc ins n + BitVec.ofNat 32 (4 * k)
  /-- The PC goes on by 4 behind each accepted instruction, and to the target of a redirect. -/
  pc : ∀ m < n, (run ins (m + 1)).pc =
    if jSignal (run ins m) (ins m) then jump (run ins m) (ins m)
    else if (accepted (run ins m) (ins m)).isEmpty then (run ins m).pc
    else (run ins m).pc + 4#32
  /-- What has left EX is the word fetched for its address, or a page fault. -/
  words : ∀ e ∈ leftLog ins n, e.fault = false → FetchedFor ins n e
  /-- So is what is held, unless a page fault is ahead of it. -/
  held : ∀ e ∈ heldSlots (run ins n), e.fault = false →
    FetchedFor ins n e ∨ ∃ x ∈ exSlot (run ins n), x.fault = true
  /-- A page fault redirects when it leaves EX, and what is behind it is flushed. -/
  faults : ∀ m < n, ∀ e ∈ left (run ins m) (ins m), e.fault = true →
    jSignal (run ins m) (ins m) = true ∧ heldSlots (run ins (m + 1)) = []
  /-- The answer to a fetch that a redirect has overtaken is not accepted. -/
  stale : ∀ m < n, ∀ t g, jSignal (run ins t) (ins t) = true → g ≤ t → t ≤ m →
    answeredGrant ins m = some g → ∀ e ∈ accepted (run ins m) (ins m), e.fault = true

/-- **The words of the path were fetched for it**, given the invariant of fetches. -/
theorem fetchesPath_of_fetchInv (h : ∀ n, FetchInv ins n) (n : ℕ) : FetchesPath ins n where
  order := leftLog_append_held ins n
  path _ _ _ he := pc_of_left he
  ahead := (frontInv_pathPc ins n).consecutive
  pc m _ := pc_next (run ins m) (ins m)
  words _ he hf := fetchedFor_of_leftLog h he hf
  held e he hf := by
    rw [heldSlots, List.mem_append] at he
    by_cases hx : ∃ x ∈ exSlot (run ins n), x.fault = true
    · exact Or.inr hx
    · left
      rcases he with he | he
      · exact (h n).ex e he hf
      · refine (h n).id e he hf fun x hxe => ?_
        exact Bool.eq_false_of_not_eq_true fun hxf => hx ⟨x, hxe, hxf⟩
  faults _ _ _ he hf := ⟨jSignal_of_left he hf, heldSlots_of_jSignal (jSignal_of_left he hf)⟩
  stale _ _ _ _ hj hgt htn hg _ he := fault_of_stale hj hgt htn hg he

/-- **Fetch delivers the program's path**, on a port whose answers are to granted fetches: each in
the cycle of the grant or later, with page faults, stalls and redirects as they come. -/
theorem run_fetchesPath (ins : ℕ → CpuIn)
    (hans : ∀ n, (ins n).instrRvalidIn = true → (answeredGrant ins n).isSome = true) (n : ℕ) :
    FetchesPath ins n :=
  fetchesPath_of_fetchInv (fetchInv_run hans) n

/-- `jal x0, 8` at every address, each fetch answered two cycles behind its grant: each jump is
taken while the fetch behind it is out. -/
def uncachedJump (n : ℕ) : CpuIn :=
  { quietFetch 0x0080006F#32 with
    instrGntIn := n % 3 == 0
    instrRvalidIn := n % 3 == 2 }

/-- Jumps that are taken while the fetch behind them is out. -/
theorem run_fetchesPath_uncachedJump :
    FetchesPath uncachedJump 12 ∧
      (leftLog uncachedJump 12).map (·.pc) = [0x80000000#32, 0x80000008#32] := by
  refine ⟨run_fetchesPath uncachedJump (fun n hr => ?_) 12, by decide +kernel⟩
  have hmod : n % 3 = 2 := by simpa [uncachedJump] using hr
  obtain ⟨k, rfl⟩ : ∃ k, n = k + 2 := ⟨n - 2, by omega⟩
  have hk : k % 3 = 0 := by omega
  have hk1 : (k + 1) % 3 = 1 := by omega
  have hgrant : grantCycle uncachedJump (k + 2) = some k := by
    simp [grantCycle, uncachedJump, hk, hk1]
  rw [answeredGrant, hgrant]
  split <;> rfl

end RiscvCpu

end Synapse32
