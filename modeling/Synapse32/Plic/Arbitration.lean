import Synapse32.Rtl.Plic
import Synapse32.Lib.Clocked
import Synapse32.Lib.Scan

/-! # PLIC arbitration

The claim ID of a context is the winner of a scan over its candidates: the sources that are pending,
enabled for it and above its threshold. Claims of one context take the candidates one by one, in the
order of their priorities. -/

namespace Synapse32

namespace Plic

variable {N : NumSources} {s : Plic N} {i : PlicIn N} {c : PlicContext}

/-! ## Source IDs -/

/-- A source as a register value. -/
def sourceNumber (j : Source N) : Word := BitVec.ofNat 32 (j + 1)

/-- The number of a source. -/
theorem toNat_sourceId (j : Source N) : (sourceId j).toNat = j + 1 := by
  have hj := j.isLt
  have hN := N.le
  rw [sourceId, BitVec.toNat_ofNat]
  exact Nat.mod_eq_of_lt (by omega)

/-- No source has number 0. -/
theorem sourceId_ne_zero (j : Source N) : sourceId j ≠ 0#5 := by
  intro h
  have hnat := toNat_sourceId j
  rw [h] at hnat
  simp at hnat

/-- Sources have different numbers. -/
@[simp] theorem sourceId_inj {j k : Source N} : sourceId j = sourceId k ↔ j = k := by
  constructor
  · intro h
    have hnat := congrArg BitVec.toNat h
    rw [toNat_sourceId, toNat_sourceId] at hnat
    exact Fin.ext (by omega)
  · rintro rfl
    rfl

/-- The number of a source as a word. -/
theorem setWidth_sourceId (j : Source N) : (sourceId j).setWidth 32 = sourceNumber j := by
  have hj := j.isLt
  have hN := N.le
  apply BitVec.eq_of_toNat_eq
  rw [BitVec.toNat_setWidth, toNat_sourceId, sourceNumber, BitVec.toNat_ofNat]

/-! ## Contexts -/

/-- The enable register of a context. -/
def enable (s : Plic N) : PlicContext → Source N → Bool
  | .machine => s.enableM
  | .supervisor => s.enableS

/-- The threshold of a context. -/
def threshold (s : Plic N) : PlicContext → BitVec 3
  | .machine => s.thresholdM
  | .supervisor => s.thresholdS

/-- The claim ID of a context. -/
def claimId (s : Plic N) (c : PlicContext) : BitVec 5 := bestSource s (enable s c) (threshold s c)

/-- The external interrupt line of a context. -/
def externalInterrupt (s : Plic N) : PlicContext → Bool
  | .machine => machineExternalInterrupt s
  | .supervisor => supervisorExternalInterrupt s

/-- The claim/complete register of a context. -/
def claimAddr : PlicContext → Word
  | .machine => claimMAddr
  | .supervisor => claimSAddr

/-- The enable register's address. -/
def enableAddr : PlicContext → Word
  | .machine => enableMAddr
  | .supervisor => enableSAddr

/-- The threshold register's address. -/
def thresholdAddr : PlicContext → Word
  | .machine => thresholdMAddr
  | .supervisor => thresholdSAddr

/-- The cycle reads the claim register of a context. -/
def readsClaim (i : PlicIn N) (c : PlicContext) : Bool := i.readEnable && i.addr == claimAddr c

/-- A context is interrupted when there is a source to claim. -/
theorem externalInterrupt_eq (s : Plic N) (c : PlicContext) :
    externalInterrupt s c = (claimId s c != 0#5) := by
  cases c <;> rfl

/-- A claim is a read of the claim register. -/
theorem addr_of_readsClaim (h : readsClaim i c = true) :
    i.readEnable = true ∧ i.addr = claimAddr c := by
  rwa [readsClaim, Bool.and_eq_true, beq_iff_eq] at h

/-- **A claim read returns the claim ID.** -/
theorem readData_of_readsClaim (h : readsClaim i c = true) :
    readData s i = (claimId s c).setWidth 32 := by
  obtain ⟨hr, ha⟩ := addr_of_readsClaim h
  unfold readData plicAccess
  rw [hr, ha]
  cases c <;> rfl

/-- The claim that takes a source is a read of either claim register with its ID. -/
theorem claimTakes_iff (j : Source N) :
    claimTakes s i j = true ↔ ∃ c, readsClaim i c = true ∧ claimId s c = sourceId j := by
  have hone : ∀ (c : PlicContext) (access : Bool), (access = true ↔ plicAccess i = true) →
      ((i.readEnable && access && i.addr == claimAddr c && claimId s c != 0#5 &&
        claimId s c == sourceId j) = true ↔ readsClaim i c = true ∧ claimId s c = sourceId j) := by
    intro c access haccess
    simp only [readsClaim, Bool.and_eq_true, beq_iff_eq, bne_iff_ne, haccess]
    constructor
    · rintro ⟨⟨⟨⟨hr, -⟩, ha⟩, -⟩, hid⟩
      exact ⟨⟨hr, ha⟩, hid⟩
    · rintro ⟨⟨hr, ha⟩, hid⟩
      refine ⟨⟨⟨⟨hr, ?_⟩, ha⟩, ?_⟩, hid⟩
      · rw [plicAccess, ha]
        cases c <;> decide
      · rw [hid]
        exact sourceId_ne_zero j
  have hm := hone .machine (plicAccess i) Iff.rfl
  have hs := hone .supervisor (plicAccess i) Iff.rfl
  rw [claimTakes, Bool.or_eq_true]
  constructor
  · rintro (h | h)
    · exact ⟨.machine, hm.mp h⟩
    · exact ⟨.supervisor, hs.mp h⟩
  · rintro ⟨_ | _, h⟩
    · exact .inl (hm.mpr h)
    · exact .inr (hs.mpr h)

/-! ## The winner -/

/-- A source that a context may claim. -/
def Candidate (s : Plic N) (c : PlicContext) (j : Source N) : Prop :=
  s.pending j = true ∧ enable s c j = true ∧ threshold s c < s.priorityQ j

/-- The priority of a source. -/
def priority (s : Plic N) (j : Source N) : ℕ := (s.priorityQ j).toNat

/-- The source a context would claim. -/
def winner (s : Plic N) (c : PlicContext) : Option (Source N) :=
  Scan.greatest (fun j => s.pending j && enable s c j) (priority s) (threshold s c).toNat
    (List.finRange N.val)

/-- **The scan of `best_source` is a scan for the greatest priority.** -/
theorem claimId_eq (s : Plic N) (c : PlicContext) :
    claimId s c = (winner s c).elim 0#5 sourceId := by
  let carries (best : BitVec 5 × BitVec 3) (win : Option (Source N) × ℕ) : Prop :=
    best.1 = win.1.elim 0#5 sourceId ∧ best.2.toNat = win.2
  have hscan : carries _ _ := List.foldl_rel (l := List.finRange N.val)
    (f := fun (best : BitVec 5 × BitVec 3) (j : Source N) =>
      if s.pending j && enable s c j && decide (best.2 < s.priorityQ j) then
        (sourceId j, s.priorityQ j)
      else best)
    (g := Scan.step (fun j => s.pending j && enable s c j) (priority s))
    (a := (0#5, threshold s c)) (b := (none, (threshold s c).toNat)) ⟨rfl, rfl⟩ ?_
  · exact hscan.1
  · rintro j - best win ⟨hid, hprio⟩
    have hlt : (best.2 < s.priorityQ j) = (win.2 < priority s j) := by
      rw [BitVec.lt_def, hprio, priority]
    unfold Scan.step
    simp only [hlt]
    split
    · exact ⟨rfl, rfl⟩
    · exact ⟨hid, hprio⟩

/-- A candidate is pending, enabled and above the threshold. -/
theorem candidate_iff (j : Source N) :
    Candidate s c j ↔ j ∈ List.finRange N.val ∧ (s.pending j && enable s c j) = true ∧
      (threshold s c).toNat < priority s j := by
  rw [Candidate, Bool.and_eq_true, BitVec.lt_def, priority, and_assoc]
  simp

/-- The number claimed is the winner's. -/
theorem claimId_eq_sourceId_iff (j : Source N) :
    claimId s c = sourceId j ↔ winner s c = some j := by
  rw [claimId_eq]
  cases winner s c with
  | none => simp [(sourceId_ne_zero j).symm]
  | some k => simp

/-- Number 0 is claimed when there is no winner. -/
theorem claimId_eq_zero_iff : claimId s c = 0#5 ↔ winner s c = none := by
  rw [claimId_eq]
  cases winner s c with
  | none => simp
  | some k => simp [sourceId_ne_zero k]

/-- **What a claim returns**, the candidates being ranked. -/
theorem winner_of_ranked {l : List (Source N)} (hl : Scan.Ranked (priority s) l)
    (hmem : ∀ j, j ∈ l ↔ Candidate s c j) : winner s c = l.head? :=
  Scan.greatest_of_ranked (List.pairwise_lt_finRange _) hl fun j =>
    (hmem j).trans (candidate_iff j)

/-! ## Claims with no other event -/

/-- A cycle that does nothing but claim, if anything, through one context: no write, no claim of the
other context, and no source that the gateway of `s` would forward. -/
structure Quiet (s : Plic N) (c : PlicContext) (i : PlicIn N) : Prop where
  noWrite : i.writeEnable = false
  noOther : readsClaim i c.other = false
  noForward : ∀ j, i.sourceIrq j = true → s.gatewayBusy j = true

/-- What a quiet cycle leaves as it was. -/
structure SameSetup (s t : Plic N) (c : PlicContext) : Prop where
  priorityQ : t.priorityQ = s.priorityQ
  gatewayBusy : t.gatewayBusy = s.gatewayBusy
  enable : enable t c = enable s c
  threshold : threshold t c = threshold s c

/-- Without a write no register of the bus changes. -/
theorem writes_of_noWrite (h : i.writeEnable = false) (addr : Word) : writes i addr = false := by
  rw [writes, h]
  rfl

/-- Without a write nothing is completed. -/
theorem completes_of_noWrite (h : i.writeEnable = false) (j : Source N) :
    completes s i j = false := by
  rw [completes, completeWrite, h]
  rfl

/-- In a cycle that does not read the other claim register, a claim is of this context. -/
theorem claimTakes_iff_of_noOther (h : readsClaim i c.other = false) (j : Source N) :
    claimTakes s i j = true ↔ readsClaim i c = true ∧ claimId s c = sourceId j := by
  rw [claimTakes_iff]
  constructor
  · rintro ⟨c', hr, hid⟩
    have hc : c' = c := by
      by_contra hne
      have hother : c' = c.other := by revert hne; cases c <;> cases c' <;> simp [PlicContext.other]
      exact absurd (hother ▸ hr) (by rw [h]; decide)
    exact hc ▸ ⟨hr, hid⟩
  · intro hr
    exact ⟨c, hr⟩

/-- **Step.** A quiet cycle takes from the pending sources the one its claim returns. -/
theorem next_of_quiet (h : Quiet s c i) :
    SameSetup s (next s i) c ∧
      ∀ j, (next s i).pending j = true ↔
        s.pending j = true ∧ ¬ (readsClaim i c = true ∧ winner s c = some j) := by
  have hw := writes_of_noWrite h.noWrite
  have hcomplete := completes_of_noWrite (s := s) h.noWrite
  have hforward : ∀ j, (!s.gatewayBusy j && i.sourceIrq j) = false := by
    intro j
    cases hirq : i.sourceIrq j
    · exact Bool.and_false _
    · rw [h.noForward j hirq]
      rfl
  constructor
  · constructor
    · funext j
      simp [next, hw]
    · funext j
      simp [next, hcomplete, hforward]
    · cases c <;> simp [next, enable, hw]
    · cases c <;> simp [next, threshold, hw]
  · intro j
    rw [← claimId_eq_sourceId_iff, ← claimTakes_iff_of_noOther h.noOther]
    simp [next, hcomplete, hforward, and_comm]

/-- A cycle is quiet for a context whatever else the state holds. -/
theorem Quiet.of_setup {t : Plic N} (h : Quiet s c i) (ht : SameSetup s t c) : Quiet t c i where
  noWrite := h.noWrite
  noOther := h.noOther
  noForward := by
    rw [ht.gatewayBusy]
    exact h.noForward

/-- `SameSetup` is transitive. -/
theorem SameSetup.trans {t u : Plic N} (h : SameSetup s t c) (h' : SameSetup t u c) :
    SameSetup s u c where
  priorityQ := h'.priorityQ.trans h.priorityQ
  gatewayBusy := h'.gatewayBusy.trans h.gatewayBusy
  enable := h'.enable.trans h.enable
  threshold := h'.threshold.trans h.threshold

/-- The state on the way through the candidates of `s`: `l` are those that are left. -/
structure Draining (s t : Plic N) (c : PlicContext) (l : List (Source N)) : Prop where
  setup : SameSetup s t c
  ranked : Scan.Ranked (priority s) l
  left : ∀ j, j ∈ l ↔ Candidate t c j

/-- The next claim returns the head of what is left. -/
theorem Draining.winner {t : Plic N} {l : List (Source N)} (h : Draining s t c l) :
    winner t c = l.head? := by
  refine winner_of_ranked ?_ h.left
  have hprio : priority t = priority s := by
    funext j
    rw [priority, h.setup.priorityQ, priority]
  exact hprio ▸ h.ranked

/-- **Step.** A claim takes the head of what is left. -/
theorem Draining.next {t : Plic N} {l : List (Source N)} (h : Draining s t c l)
    (hq : Quiet s c i) :
    Draining s (Plic.next t i) c (if readsClaim i c = true then l.tail else l) := by
  obtain ⟨hsetup, hpending⟩ := next_of_quiet (hq.of_setup h.setup)
  -- Only the winner of a claim read stops being a candidate.
  have hcand : ∀ j, Candidate (Plic.next t i) c j ↔
      Candidate t c j ∧ ¬ (readsClaim i c = true ∧ l.head? = some j) := by
    intro j
    rw [Candidate, Candidate, hpending, hsetup.enable, hsetup.threshold, hsetup.priorityQ,
      h.winner]
    tauto
  by_cases hr : readsClaim i c = true
  · rw [if_pos hr]
    refine ⟨h.setup.trans hsetup, h.ranked.tail, fun j => ?_⟩
    rw [hcand, ← h.left]
    cases l with
    | nil => simp
    | cons k l =>
      have hk : k ∉ l := (List.nodup_cons.mp h.ranked.nodup).1
      simp only [List.tail_cons, List.mem_cons, List.head?_cons, Option.some.injEq, hr, true_and]
      constructor
      · intro hj
        exact ⟨.inr hj, fun hkj => hk (hkj ▸ hj)⟩
      · rintro ⟨rfl | hj, hne⟩
        · exact absurd rfl hne
        · exact hj
  · rw [if_neg hr]
    refine ⟨h.setup.trans hsetup, h.ranked, fun j => ?_⟩
    rw [hcand, h.left]
    simp [hr]

/-- What the claim reads of a context return, in order. -/
def claimLog (s : Plic N) (ins : ℕ → PlicIn N) (c : PlicContext) (n : ℕ) : List Word :=
  Clocked.log next s ins (fun t i => if readsClaim i c then [readData t i] else []) n

/-- The number of claim reads of a context in the first `n` cycles. -/
def claimReads (ins : ℕ → PlicIn N) (c : PlicContext) (n : ℕ) : ℕ :=
  Nat.count (fun m => readsClaim (ins m) c = true) n

/-- The `r`-th of the claims that drain `l`: its `r`-th source, and `0` behind its end. -/
def drainedClaim (l : List (Source N)) (r : ℕ) : Word := l[r]?.elim 0#32 sourceNumber

/-- **Run.** Claims with no other event list the candidates by their rank. -/
theorem draining_run {l : List (Source N)} (hl : Scan.Ranked (priority s) l)
    (hmem : ∀ j, j ∈ l ↔ Candidate s c j) {ins : ℕ → PlicIn N} (hq : ∀ m, Quiet s c (ins m))
    (n : ℕ) :
    Draining s (Clocked.run next s ins n) c (l.drop (claimReads ins c n)) ∧
      claimLog s ins c n = (List.range (claimReads ins c n)).map (drainedClaim l) := by
  induction n with
  | zero => exact ⟨⟨⟨rfl, rfl, rfl, rfl⟩, hl, hmem⟩, rfl⟩
  | succ n ih =>
    obtain ⟨hd, hlog⟩ := ih
    have hnext : Draining s (Clocked.run next s ins (n + 1)) c
        (if readsClaim (ins n) c = true then (l.drop (claimReads ins c n)).tail
          else l.drop (claimReads ins c n)) := hd.next (hq n)
    have hsucc : claimLog s ins c (n + 1) = claimLog s ins c n ++
        if readsClaim (ins n) c then [readData (Clocked.run next s ins n) (ins n)] else [] :=
      Clocked.log_succ _ _ _
    have hcount : claimReads ins c (n + 1) =
        claimReads ins c n + if readsClaim (ins n) c = true then 1 else 0 := Nat.count_succ _ _
    rw [hsucc, hlog, hcount]
    by_cases hr : readsClaim (ins n) c = true
    · rw [if_pos hr, List.tail_drop] at hnext
      refine ⟨by rw [if_pos hr]; exact hnext, ?_⟩
      -- The word read is the ID of the first source that is left.
      have hread : readData (Clocked.run next s ins n) (ins n) =
          drainedClaim l (claimReads ins c n) := by
        rw [readData_of_readsClaim hr, claimId_eq, hd.winner, List.head?_drop, drainedClaim]
        cases l[claimReads ins c n]? with
        | none => rfl
        | some j => exact setWidth_sourceId j
      rw [if_pos hr, if_pos hr, hread, List.range_succ, List.map_append, List.map_singleton]
    · rw [if_neg hr] at hnext
      refine ⟨by rw [if_neg hr]; exact hnext, ?_⟩
      rw [if_neg hr, if_neg hr, List.append_nil, Nat.add_zero]

/-- **PLIC arbitration** in a state, for one context: its claim ID is `0` without a candidate, and
else the candidate of greatest priority, the lowest-numbered on a tie; its line is high when the ID
is not `0`; and its claims, with no other event, list all candidates by decreasing priority, each
once, and then return `0`. -/
structure Arbitrates (s : Plic N) (c : PlicContext) : Prop where
  zero : claimId s c = 0#5 ↔ ∀ j, ¬ Candidate s c j
  best : ∀ j, claimId s c = sourceId j ↔
    Candidate s c j ∧ ∀ k, Candidate s c k → k = j ∨ Scan.Before (priority s) j k
  line : externalInterrupt s c = true ↔ claimId s c ≠ 0#5
  read : ∀ i, readsClaim i c = true → readData s i = (claimId s c).setWidth 32
  drain : ∃ l, Scan.Ranked (priority s) l ∧ (∀ j, j ∈ l ↔ Candidate s c j) ∧
    ∀ ins : ℕ → PlicIn N, (∀ m, Quiet s c (ins m)) → ∀ n,
      claimLog s ins c n = (List.range (claimReads ins c n)).map (drainedClaim l)

/-- **The PLIC arbitrates** in every state, for each context and any number of sources. -/
theorem arbitrates (s : Plic N) (c : PlicContext) : Arbitrates s c := by
  constructor
  case zero =>
    rw [claimId_eq_zero_iff, winner, Scan.greatest_eq_none_iff]
    simp only [candidate_iff, not_and, List.mem_finRange, true_implies]
  case best =>
    intro j
    rw [claimId_eq_sourceId_iff, winner, Scan.greatest_eq_some_iff (List.pairwise_lt_finRange _)]
    simp only [candidate_iff, and_imp]
  case line => rw [externalInterrupt_eq, bne_iff_ne]
  case read => exact fun i => readData_of_readsClaim
  case drain =>
    classical
    obtain ⟨l, hl, hmem⟩ :=
      Scan.exists_ranked (priority s) (Finset.univ.filter fun j => Candidate s c j)
    have hmem : ∀ j, j ∈ l ↔ Candidate s c j := by simpa using hmem
    exact ⟨l, hl, hmem, fun ins hq n => (draining_run hl hmem hq n).2⟩

end Plic

end Synapse32
