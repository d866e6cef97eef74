import Synapse32.Mmu.Contents

/-! # Every translation is settled

A side that holds its request is ready in the end, with a translation or a held fault, if the walk
port is served: a walk that is under way for something else ends first, then the side's own walk
starts, and what it finds stays while nothing else is walked. The data side goes before the fetch
side, which so is settled while the data side asks for nothing. -/

namespace Synapse32

/-- The virtual address of a side. -/
def MmuIn.vaddr (x : MmuIn) : WalkSide → Word
  | .data => x.dataVirtualAddr
  | .instr => x.instrVirtualAddr

/-- The translation of a side is on. -/
def MmuIn.translates (x : MmuIn) : WalkSide → Bool
  | .data => x.dataTranslateEnable
  | .instr => x.instrTranslateEnable

/-- **A side holds its request** for the address `va`, and no fence comes; the fetch side does so
while the data side asks for no translation. -/
structure MmuIn.Holds (x : MmuIn) (side : WalkSide) (va : Word) (on : Bool) : Prop where
  addr : x.vaddr side = va
  translates : x.translates side = on
  flush : x.flushTlb = false
  asks : side = .data → (x.dataRdEn || x.dataWrReq) = true
  alone : side = .instr → (x.dataTranslateEnable && (x.dataRdEn || x.dataWrReq)) = false

namespace Sv32Mmu

variable {u : Sv32Mmu} {x y : MmuIn} {side : WalkSide} {va : Word} {on : Bool}

/-- The held fault of a side. -/
def fault (u : Sv32Mmu) : WalkSide → HeldFault
  | .data => u.dataFault
  | .instr => u.instrFault

/-- A side is ready. -/
def ready (u : Sv32Mmu) (x : MmuIn) : WalkSide → Bool
  | .data => dataReady u x
  | .instr => instrReady u x

/-- A side is ready when it needs no translation, hits, or has its fault. -/
theorem ready_eq (u : Sv32Mmu) (x : MmuIn) (side : WalkSide) : ready u x side =
    (!x.translates side || u.tlb.hit tlbEntries (x.vaddr side) ||
      (u.fault side).isMatch (x.vaddr side)) := by
  cases side <;> rfl

/-- **A side is settled**: it is ready, and nothing is on its way into the TLB. Before a settled
data side a walk may wait for its grant. -/
structure Settled (side : WalkSide) (u : Sv32Mmu) (x : MmuIn) : Prop where
  ready : ready u x side = true
  fill : u.fill.en = false
  rest : u.walk.state = .idle ∨ side = .data ∧ u.walk.accepted = false

/-- The walk is the side's own, and no fence has overtaken it. -/
def Own (side : WalkSide) (va : Word) (w : Walker) : Prop :=
  w.side = side ∧ w.vaddr = va ∧ w.aborted = false

/-- Whether a walk is for the side's own address can be decided. -/
instance (w : Walker) : Decidable (Own side va w) :=
  inferInstanceAs (Decidable (_ ∧ _ ∧ _))

/-- What is left to do until a side is settled: the rest of a walk for something else, and then the
side's own walk. -/
def work (side : WalkSide) (va : Word) (u : Sv32Mmu) : ℕ :=
  match u.walk.state with
  | .idle => if u.fill.en then if u.fill.vaddr = va then 1 else 7 else 6
  | .level1 => (if Own side va u.walk then 5 else 11) - u.walk.accepted.toNat
  | .level0 => (if Own side va u.walk then 3 else 9) - u.walk.accepted.toNat

/-- The work left in IDLE. -/
theorem work_idle (h : u.walk.state = .idle) :
    work side va u = if u.fill.en then if u.fill.vaddr = va then 1 else 7 else 6 := by
  rw [work, h]

/-- The work left in LEVEL1. -/
theorem work_level1 (h : u.walk.state = .level1) :
    work side va u = (if Own side va u.walk then 5 else 11) - u.walk.accepted.toNat := by
  rw [work, h]

/-- The work left in LEVEL0. -/
theorem work_level0 (h : u.walk.state = .level0) :
    work side va u = (if Own side va u.walk then 3 else 9) - u.walk.accepted.toNat := by
  rw [work, h]

/-! ## One cycle -/

/-- The walker after the edge. -/
theorem next_walk : (u.next x).walk = nextWalk u x := rfl

/-- Without an answer nothing enters the TLB afterwards. -/
theorem nextFill_of_quiet (h : walkAnswered u x = false) : (nextFill u x).en = false := by
  rw [nextFill, h, Bool.false_and, Bool.false_and, if_neg Bool.false_ne_true]

/-- An idle walker is given no answer. -/
theorem walkAnswered_of_idle (h : u.walk.state = .idle) : walkAnswered u x = false := by
  rw [walkAnswered, h]
  rfl

/-- While a fill is being written no walk starts. -/
theorem next_of_fill (hs : u.walk.state = .idle) (hf : u.fill.en = true) :
    (u.next x).walk.state = .idle ∧ (u.next x).fill.en = false := by
  refine ⟨?_, nextFill_of_quiet (walkAnswered_of_idle hs)⟩
  rw [next_walk, nextWalk, hs, dataWalkNeeded, instrWalkNeeded, hf]
  simp [hs]

/-- **A side that is not ready starts its walk.** -/
theorem next_of_start (hx : x.Holds side va on) (hs : u.walk.state = .idle)
    (hf : u.fill.en = false) (hr : ready u x side = false) :
    (u.next x).walk.state = .level1 ∧ Own side va (u.next x).walk ∧
      (u.next x).walk.accepted = false := by
  rw [next_walk, nextWalk, hs]
  dsimp only
  cases side with
  | data =>
    have hn : dataWalkNeeded u x = true := by
      have hr : dataReady u x = false := hr
      rw [dataReady, Bool.or_eq_false_iff, Bool.or_eq_false_iff, Bool.not_eq_false'] at hr
      rw [dataWalkNeeded, hr.1.1, hr.1.2, hr.2, hf, hx.asks rfl]
      rfl
    rw [if_pos hn]
    exact ⟨rfl, ⟨rfl, hx.addr, rfl⟩, rfl⟩
  | instr =>
    have hn : instrWalkNeeded u x = true := by
      have hr : instrReady u x = false := hr
      rw [instrReady, Bool.or_eq_false_iff, Bool.or_eq_false_iff, Bool.not_eq_false'] at hr
      rw [instrWalkNeeded, hr.1.1, hr.1.2, hr.2, hf]
      rfl
    have hd : dataWalkNeeded u x = false := by
      rw [dataWalkNeeded, hx.alone rfl]
      rfl
    rw [hd, if_neg Bool.false_ne_true, if_pos hn]
    exact ⟨rfl, ⟨rfl, hx.addr, rfl⟩, rfl⟩

/-- A walk that waits stays as it is, but for its grant. -/
theorem next_of_wait (hs : u.walk.state ≠ .idle) (hf : x.flushTlb = false)
    (hv : x.walkRvalid = false) :
    (u.next x).walk = { u.walk with accepted := u.walk.accepted || x.walkGnt } := by
  rw [next_walk, nextWalk_of_wait hs hv, hf, Bool.or_false]

/-- **The answer of a walk**: the next level, a fill, or the end; the side's own walk does not end
without a fill or a fault to hold. -/
theorem next_of_answer (side : WalkSide) (va : Word) (hs : u.walk.state ≠ .idle)
    (hf : x.flushTlb = false) (hv : x.walkRvalid = true) :
    (u.walk.state = .level1 ∧ (u.next x).walk.state = .level0 ∧
      (u.next x).walk.accepted = false ∧
      (Own side va u.walk → Own side va (u.next x).walk)) ∨
    ((u.next x).walk.state = .idle ∧ (u.next x).fill.en = true ∧
      (u.next x).fill.vaddr = u.walk.vaddr) ∨
    ((u.next x).walk.state = .idle ∧ (u.next x).fill.en = false ∧
      (Own side va u.walk → ((u.next x).fault side).isMatch va = true)) := by
  have hwalk : (u.next x).walk =
      if walkAnswered u x && !walkFails u x && !pteIsLeaf x.walkRdata then
        { u.walk with accepted := false, level0Base := tableBase x.walkRdata, state := .level0 }
      else { u.walk with accepted := false, state := .idle } := by
    rw [next_walk, nextWalk, hv, hf, Bool.or_false]
    split
    · exact absurd ‹_› hs
    · rfl
  have hfill : (u.next x).fill =
      if walkAnswered u x && !walkFails u x && pteIsLeaf x.walkRdata then
        ⟨true, u.walk.vaddr, x.walkRdata, u.walk.state == .level1⟩
      else { u.fill with en := false } := rfl
  rw [hwalk, hfill]
  cases ha : walkAnswered u x
  · -- A fence has overtaken the walk.
    refine .inr (.inr ⟨rfl, rfl, fun hown => ?_⟩)
    rw [walkAnswered, hv, hown.2.2, hf, Bool.and_true, Bool.or_false, Bool.not_false,
      Bool.and_true] at ha
    exact absurd (bne_iff_ne.mpr hs) (by rw [ha]; exact Bool.false_ne_true)
  cases hfail : walkFails u x
  · cases hl : pteIsLeaf x.walkRdata
    · -- A pointer is no answer at the last level.
      have hst : u.walk.state = .level1 := by
        obtain ⟨hst | hst, -⟩ := of_walkAnswered ha
        · exact hst
        · rw [walkFails, hl, hst] at hfail
          simp at hfail
      exact .inl ⟨hst, rfl, rfl, id⟩
    · exact .inr (.inl ⟨rfl, rfl, rfl⟩)
  · refine .inr (.inr ⟨rfl, rfl, fun hown => ?_⟩)
    obtain ⟨hside, hva, -⟩ := hown
    have hfailed : failedWalk u x side = some va := by
      rw [failedWalk, ha, hfail, hside, hva, beq_self_eq_true]
      rfl
    cases side with
    | data =>
      change ((u.dataFault.next _ _ _ (failedWalk u x .data))).isMatch va = true
      rw [hfailed]
      simp [HeldFault.next, HeldFault.isMatch]
    | instr =>
      change ((u.instrFault.next _ _ _ (failedWalk u x .instr))).isMatch va = true
      rw [hfailed]
      simp [HeldFault.next, HeldFault.isMatch]

/-- **What a settled side keeps**: while nothing is granted, the TLB stays as it is and the side
stays settled. -/
theorem Settled.next (h : Settled side u x) (hx : x.Holds side va on) (hy : y.Holds side va on)
    (hq : u.walk.state ≠ .idle → x.walkGnt = false ∧ x.walkRvalid = false) :
    Settled side (u.next x) y ∧ (u.next x).tlb = u.tlb := by
  have hna : walkAnswered u x = false := by
    by_cases hs : u.walk.state = .idle
    · exact walkAnswered_of_idle hs
    · rw [walkAnswered, (hq hs).2, Bool.and_false, Bool.false_and]
  have htlb : (u.next x).tlb = u.tlb := by
    change u.tlb.next tlbEntries x.flushTlb u.fill.en _ _ _ = _
    rw [hx.flush, h.fill]
    rfl
  have hfault : on = true → (u.fault side).isMatch va = true →
      ((u.next x).fault side).isMatch va = true := by
    intro hon hm
    have hnone : failedWalk u x side = none := by
      rw [failedWalk, hna, Bool.false_and, Bool.false_and, if_neg Bool.false_ne_true]
    have hstay : (u.fault side).next x.flushTlb (x.translates side) (x.vaddr side)
        (failedWalk u x side) = u.fault side := by
      rw [hnone, HeldFault.next, hx.flush, hx.translates, hon, hx.addr]
      simp only [HeldFault.isMatch, Bool.and_eq_true, beq_iff_eq] at hm
      rw [hm.1, hm.2]
      simp
    have hnext : (u.next x).fault side = (u.fault side).next x.flushTlb (x.translates side)
        (x.vaddr side) (failedWalk u x side) := by cases side <;> rfl
    rw [hnext, hstay]
    exact hm
  have hready : Sv32Mmu.ready (u.next x) y side = true := by
    have hr := h.ready
    rw [ready_eq, hx.addr, hx.translates] at hr
    rw [ready_eq, hy.addr, hy.translates, htlb]
    cases on
    · rfl
    · rw [Bool.not_true, Bool.false_or, Bool.or_eq_true] at hr ⊢
      exact hr.imp_right (hfault rfl)
  refine ⟨⟨hready, nextFill_of_quiet hna, ?_⟩, htlb⟩
  by_cases hs : u.walk.state = .idle
  · cases side with
    | data =>
      -- The fetch side may start a walk, which waits.
      refine .inr ⟨rfl, ?_⟩
      rw [next_walk]
      by_contra hacc
      exact (nextWalk_accepted (Bool.eq_true_of_not_eq_false hacc)).1 hs
    | instr =>
      left
      have hd : dataWalkNeeded u x = false := by
        rw [dataWalkNeeded, hx.alone rfl]
        rfl
      have hi : instrWalkNeeded u x = false := by
        have hr : instrReady u x = true := h.ready
        rw [instrReady, Bool.or_eq_true, Bool.or_eq_true, Bool.not_eq_true'] at hr
        rw [instrWalkNeeded]
        rcases hr with (hr | hr) | hr <;> rw [hr] <;> simp
      rw [next_walk, nextWalk, hs]
      dsimp only
      rw [hd, hi, if_neg Bool.false_ne_true, if_neg Bool.false_ne_true]
      exact hs
  · obtain ⟨hg, hv⟩ := hq hs
    obtain ⟨hside, hacc⟩ := h.rest.resolve_left hs
    refine .inr ⟨hside, ?_⟩
    rw [next_of_wait hs hx.flush hv, hacc, hg]
    rfl

/-- While a walk waits for its answer, no side gets ready that was not. -/
theorem ready_of_wait (hx : x.Holds side va on) (hy : y.Holds side va on)
    (hen : u.fill.en = false) (hv : x.walkRvalid = false) (hr : ready u x side = false) :
    ready (u.next x) y side = false := by
  have htlb : (u.next x).tlb = u.tlb := by
    change u.tlb.next tlbEntries x.flushTlb u.fill.en _ _ _ = _
    rw [hx.flush, hen]
    rfl
  have hnone : failedWalk u x side = none := by
    rw [failedWalk, walkAnswered, hv, Bool.and_false, Bool.false_and, Bool.false_and,
      Bool.false_and, if_neg Bool.false_ne_true]
  have hnext : (u.next x).fault side = (u.fault side).next x.flushTlb (x.translates side)
      (x.vaddr side) (failedWalk u x side) := by cases side <;> rfl
  rw [ready_eq, hx.addr, hx.translates, Bool.or_eq_false_iff] at hr
  rw [ready_eq, hy.addr, hy.translates, htlb, Bool.or_eq_false_iff]
  refine ⟨hr.1, ?_⟩
  -- A held fault is dropped or kept.
  rw [hnext, hnone, HeldFault.next]
  split
  · exact Bool.false_and _
  · exact hr.2

/-! ## Whole runs -/

variable {ins : ℕ → MmuIn} {n n0 : ℕ}

/-- The walk port moves the walk on: a request is granted, or the answer comes. -/
def Moves (ins : ℕ → MmuIn) (n : ℕ) : Prop :=
  (ins n).walkRvalid = true ∨ (run ins n).walk.accepted = false ∧ (ins n).walkGnt = true

/-- **The walk port is served** from cycle `n0` on, as far as the side needs it: a walk request is
granted in the end, behind the accesses of a data side that is ready; and a granted one is
answered. -/
structure WalksServed (ins : ℕ → MmuIn) (side : WalkSide) (n0 : ℕ) : Prop where
  grants : ∀ n ≥ n0, walkReq (run ins n) = true →
    (side = .data → ready (run ins n) (ins n) side = false) → ∃ m ≥ n, Moves ins m
  answers : ∀ n ≥ n0, (run ins n).walk.state ≠ .idle → (run ins n).walk.accepted = true →
    ∃ m ≥ n, (ins m).walkRvalid = true

/-- What a fill has brought is hit. -/
theorem ready_of_fill (hy : (ins (n + 1)).Holds side va on) (hf : (ins n).flushTlb = false)
    (hen : (run ins n).fill.en = true) (hva : (run ins n).fill.vaddr = va) :
    ready (run ins (n + 1)) (ins (n + 1)) side = true := by
  have hhit : (run ins (n + 1)).tlb.hit tlbEntries va = true := by
    refine ((tlbUnique_run ins (n + 1)).lookup va).hit.mpr ⟨(run ins n).fill, ?_, ?_⟩
    · have hfills : Tlb.fills (tlbUpdates ins) (n + 1) =
          (run ins n).fill :: Tlb.fills (tlbUpdates ins) n := by
        rw [Tlb.fills]
        have hflush : (tlbUpdates ins n).flush = false := hf
        have hfill : (tlbUpdates ins n).fill.en = true := hen
        rw [hflush, hfill, if_neg Bool.false_ne_true, if_pos rfl]
        rfl
      rw [hfills]
      exact List.mem_cons_self
    · unfold TlbFill.Covers
      rw [hva]
      split <;> rfl
  rw [ready_eq, hy.addr, hhit, Bool.or_true, Bool.true_or]

/-- **One cycle of work**: something is done, or the walk port is waited for. -/
theorem work_next (hx : (ins n).Holds side va on)
    (hy : (ins (n + 1)).Holds side va on) (hnot : ¬ Settled side (run ins n) (ins n))
    (hnot' : ¬ Settled side (run ins (n + 1)) (ins (n + 1))) :
    work side va (run ins (n + 1)) < work side va (run ins n) ∨
      ((run ins n).walk.state ≠ .idle ∧ ¬ Moves ins n ∧
        work side va (run ins (n + 1)) ≤ work side va (run ins n)) := by
  have hnext : run ins (n + 1) = (run ins n).next (ins n) := rfl
  by_cases hs : (run ins n).walk.state = .idle
  · left
    cases hf : (run ins n).fill.en
    · have hr : ready (run ins n) (ins n) side = false :=
        Bool.eq_false_of_not_eq_true fun hr => hnot ⟨hr, hf, .inl hs⟩
      obtain ⟨hs', hown, hacc⟩ := next_of_start hx hs hf hr
      rw [work_idle hs, hf, hnext, work_level1 hs', if_pos hown, hacc, if_neg Bool.false_ne_true]
      decide
    · obtain ⟨hs', hf'⟩ := next_of_fill (x := ins n) hs hf
      by_cases hva : (run ins n).fill.vaddr = va
      · -- The fill settles the side.
        exact absurd ⟨ready_of_fill hy hx.flush hf hva, hf', .inl hs'⟩ hnot'
      · rw [work_idle hs, hf, if_pos rfl, if_neg hva, hnext, work_idle hs', hf',
          if_neg Bool.false_ne_true]
        decide
  cases hv : (ins n).walkRvalid
  · -- Without an answer the walk stays, but for its grant.
    have hw := next_of_wait hs hx.flush hv
    have hacc : (run ins (n + 1)).walk.accepted =
        ((run ins n).walk.accepted || (ins n).walkGnt) := by rw [hnext, hw]
    have hstate : (run ins (n + 1)).walk.state = (run ins n).walk.state := by rw [hnext, hw]
    have hown : Own side va (run ins (n + 1)).walk ↔ Own side va (run ins n).walk := by
      rw [hnext, hw]
      exact Iff.rfl
    have hwork : work side va (run ins n) - work side va (run ins (n + 1)) =
        (run ins (n + 1)).walk.accepted.toNat - (run ins n).walk.accepted.toNat ∧
        work side va (run ins (n + 1)) ≤ work side va (run ins n) := by
      rw [hacc]
      cases hst : (run ins n).walk.state
      case idle => exact absurd hst hs
      case level1 =>
        rw [work_level1 (hstate.trans hst), work_level1 hst, hacc]
        simp only [hown]
        cases (run ins n).walk.accepted <;> cases (ins n).walkGnt <;> split <;> decide
      case level0 =>
        rw [work_level0 (hstate.trans hst), work_level0 hst, hacc]
        simp only [hown]
        cases (run ins n).walk.accepted <;> cases (ins n).walkGnt <;> split <;> decide
    by_cases hm : Moves ins n
    · obtain ⟨ha, hg⟩ := hm.resolve_left (by rw [hv]; exact Bool.false_ne_true)
      left
      rw [hacc, ha, hg] at hwork
      have hone : work side va (run ins n) - work side va (run ins (n + 1)) = 1 := hwork.1
      omega
    · exact .inr ⟨hs, hm, hwork.2⟩
  · left
    have hb : (run ins n).walk.accepted.toNat ≤ 1 := by cases (run ins n).walk.accepted <;> decide
    have hlow : 8 ≤ work side va (run ins n) ∨
        Own side va (run ins n).walk ∧ 2 ≤ work side va (run ins n) := by
      cases hst : (run ins n).walk.state
      case idle => exact absurd hst hs
      case level1 =>
        rw [work_level1 hst]
        by_cases ho : Own side va (run ins n).walk
        · rw [if_pos ho]
          exact .inr ⟨ho, by omega⟩
        · rw [if_neg ho]
          exact .inl (by omega)
      case level0 =>
        rw [work_level0 hst]
        by_cases ho : Own side va (run ins n).walk
        · rw [if_pos ho]
          exact .inr ⟨ho, by omega⟩
        · rw [if_neg ho]
          exact .inl (by omega)
    rcases next_of_answer side va hs hx.flush hv with
      ⟨hst, hs', hacc, hown⟩ | ⟨hs', hf', hva⟩ | ⟨hs', hf', hfault⟩
    · rw [hnext, work_level0 hs', hacc, work_level1 hst]
      by_cases ho : Own side va (run ins n).walk
      · rw [if_pos ho, if_pos (hown ho), Bool.toNat_false]
        omega
      · rw [if_neg ho, Bool.toNat_false]
        split <;> omega
    · rw [hnext, work_idle hs', hf', if_pos rfl, hva]
      rcases hlow with hlow | ⟨ho, hlow⟩
      · split <;> omega
      · rw [if_pos ho.2.1]
        omega
    · rw [hnext, work_idle hs', hf', if_neg Bool.false_ne_true]
      rcases hlow with hlow | ⟨ho, -⟩
      · omega
      · -- The side's own walk has failed, and the fault is held.
        refine absurd ⟨?_, hf', .inl hs'⟩ hnot'
        rw [ready_eq, hy.addr, hnext, hfault ho, Bool.or_true]

/-- **A held request is settled** in the end. -/
theorem exists_settled (hheld : ∀ n ≥ n0, (ins n).Holds side va on)
    (hserved : WalksServed ins side n0) :
    ∃ n ≥ n0, Settled side (run ins n) (ins n) := by
  obtain ⟨n, hn, hset⟩ : ∃ n ≥ n0, Settled side (run ins n) (ins n) ∨
      Settled side (run ins (n + 1)) (ins (n + 1)) := by
    refine Clocked.eventually_of_rank (fun n => work side va (run ins n))
      (fun n => (run ins n).walk.state ≠ .idle ∧ ¬ Settled side (run ins n) (ins n))
      (Moves ins) ?_ ?_
    · intro n hn hnot
      rw [not_or] at hnot
      rcases work_next (hheld n hn) (hheld (n + 1) (by omega)) hnot.1 hnot.2 with
        hlt | ⟨hs, hm, hle⟩
      · exact .inl hlt
      · exact .inr ⟨⟨hs, hnot.1⟩, hm, hle⟩
    · rintro n hn ⟨hs, hnot⟩
      cases ha : (run ins n).walk.accepted
      · refine hserved.grants n hn ?_ fun hside => ?_
        · rw [walkReq, ha, Bool.not_false, Bool.and_true, bne_iff_ne]
          exact hs
        · refine Bool.eq_false_of_not_eq_true fun hr => hnot ⟨hr, ?_, .inr ⟨hside, ha⟩⟩
          exact ((distinct_run ins n).walk hs).1
      · obtain ⟨m, hm, hv⟩ := hserved.answers n hn hs ha
        exact ⟨m, hm, .inl hv⟩
  rcases hset with hset | hset
  · exact ⟨n, hn, hset⟩
  · exact ⟨n + 1, by omega, hset⟩

/-- Before a settled data side no answer comes without a grant. -/
theorem quiet_of_settled (hp : WalkPort ins) (hset : Settled side (run ins n) (ins n))
    (hg : (ins n).walkGnt = false) (hs : (run ins n).walk.state ≠ .idle) :
    (ins n).walkGnt = false ∧ (ins n).walkRvalid = false := by
  refine ⟨hg, Bool.eq_false_of_not_eq_true fun hv => ?_⟩
  obtain ⟨-, hacc⟩ := hset.rest.resolve_left hs
  rcases hp.answer n hv hs with ha | ⟨-, hg'⟩
  · exact Bool.false_ne_true (hacc.symm.trans ha)
  · exact Bool.false_ne_true (hg.symm.trans hg')

/-- **A settled side stays settled**, with the same TLB: the fetch side for ever, and the data side
until a walk is granted. -/
theorem settled_of_quiet (hp : WalkPort ins) (hheld : ∀ n ≥ n0, (ins n).Holds side va on)
    (hn : n0 ≤ n) (hset : Settled side (run ins n) (ins n)) {m : ℕ} (hm : n ≤ m)
    (hg : side = .data → ∀ k, n ≤ k → k < m → (ins k).walkGnt = false) :
    Settled side (run ins m) (ins m) ∧ (run ins m).tlb = (run ins n).tlb := by
  induction m, hm using Nat.le_induction with
  | base => exact ⟨hset, rfl⟩
  | succ m hm ih =>
    obtain ⟨hsetm, htlb⟩ := ih fun hside k hk hkm => hg hside k hk (by omega)
    have hq : (run ins m).walk.state ≠ .idle →
        (ins m).walkGnt = false ∧ (ins m).walkRvalid = false := by
      intro hs
      have hside : side = .data := (hsetm.rest.resolve_left hs).1
      exact quiet_of_settled hp hsetm (hg hside m hm (by omega)) hs
    obtain ⟨hset', htlb'⟩ := hsetm.next (hheld m (by omega)) (hheld (m + 1) (by omega)) hq
    exact ⟨hset', htlb'.trans htlb⟩

/-- **Every translation is settled.** In every run of the MMU behind a walk port that is served, a
side that holds its request without a fence, the fetch side while the data side asks for no
translation, is ready in the end, whatever walk was under way; the fetch side then stays ready for
ever, and the data side while no walk is granted, both with the TLB as it is. -/
theorem translation_settles (ins : ℕ → MmuIn) (side : WalkSide) (va : Word) (on : Bool) (n0 : ℕ)
    (hp : WalkPort ins) (hheld : ∀ n ≥ n0, (ins n).Holds side va on)
    (hserved : WalksServed ins side n0) :
    ∃ n ≥ n0, ∀ m ≥ n,
      (side = .data → ∀ k, n ≤ k → k < m → (ins k).walkGnt = false) →
        ready (run ins m) (ins m) side = true ∧ (run ins m).tlb = (run ins n).tlb := by
  obtain ⟨n, hn, hset⟩ := exists_settled hheld hserved
  refine ⟨n, hn, fun m hm hg => ?_⟩
  obtain ⟨hsetm, htlb⟩ := settled_of_quiet hp hheld hn hset hm hg
  exact ⟨hsetm.ready, htlb⟩

/-- Fetches from a megapage, with a walk port that grants and answers at once. -/
def promptWalk (_ : ℕ) : MmuIn where
  flushTlb := false
  satp := 0x80080000#32
  dataSum := false
  dataMxr := false
  instrTranslateEnable := true
  instrVirtualAddr := 0x00400000#32
  instrPrivMode := 1#2
  dataTranslateEnable := false
  dataVirtualAddr := 0#32
  dataRdEn := false
  dataWrReq := false
  dataPrivMode := 1#2
  walkGnt := true
  walkRvalid := true
  walkRdata := 0x2000000F#32

/-- A fetch that is walked for, memory answering at once. -/
theorem translation_settles_promptWalk : ∃ n ≥ 2, ∀ m ≥ n,
    ready (run promptWalk m) (promptWalk m) .instr = true ∧
      (run promptWalk m).tlb = (run promptWalk n).tlb := by
  have hreq : ∀ n, (run promptWalk n).walk.state ≠ .idle →
      (run promptWalk n).walk.accepted = false → walkReq (run promptWalk n) = true := by
    intro n hs ha
    rw [walkReq, ha, Bool.not_false, Bool.and_true, bne_iff_ne]
    exact hs
  have hp : WalkPort promptWalk := by
    refine ⟨fun _ _ => rfl, fun n _ hs => ?_⟩
    cases ha : (run promptWalk n).walk.accepted
    · exact .inr ⟨hreq n hs ha, rfl⟩
    · exact .inl rfl
  obtain ⟨n, hn, h⟩ := translation_settles promptWalk .instr 0x00400000#32 true 2 hp
    (fun _ _ => ⟨rfl, rfl, rfl, (fun h => by cases h), fun _ => rfl⟩)
    ⟨fun n _ _ _ => ⟨n, le_rfl, .inl rfl⟩, fun n _ _ _ => ⟨n, le_rfl, rfl⟩⟩
  exact ⟨n, hn, fun m hm => h m hm fun h => by cases h⟩

end Sv32Mmu

end Synapse32
