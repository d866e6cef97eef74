import Synapse32.Plic.Arbitration

/-! # The PLIC gateway

The gateway of a source forwards one request and then waits for its completion. Forwards, claims and
completions meet in one register bit each, in any order and in the same cycle; this file says what
one cycle does to the two bits of a source and counts over runs. -/

namespace Synapse32

namespace Plic

variable {N : NumSources} {s : Plic N} {i : PlicIn N} {j : Source N}

/-- The registers before cycle `n`, from reset. -/
def run (ins : ℕ → PlicIn N) (n : ℕ) : Plic N := Clocked.run next reset ins n

/-- One more cycle. -/
theorem run_succ (ins : ℕ → PlicIn N) (n : ℕ) : run ins (n + 1) = next (run ins n) (ins n) := rfl

/-! ## Events of a source -/

/-- A read of a claim register, of either context, returns source `j`. -/
def claimed (s : Plic N) (i : PlicIn N) (j : Source N) : Bool :=
  (readsClaim i .machine || readsClaim i .supervisor) && readData s i == sourceNumber j

/-- A write to a claim/complete register, of either context, names source `j`. -/
def completion (i : PlicIn N) (j : Source N) : Bool :=
  i.writeEnable && (i.addr == claimMAddr || i.addr == claimSAddr) && i.writeData == sourceNumber j

/-- The gateway forwards a request of source `j`: the source is high, and the gateway is idle or
becomes so. -/
def forwards (s : Plic N) (i : PlicIn N) (j : Source N) : Bool :=
  i.sourceIrq j && (completes s i j || !s.gatewayBusy j)

/-- The ID on the bus is that of one source. -/
theorem setWidth_eq_sourceNumber_iff (id : BitVec 5) (j : Source N) :
    id.setWidth 32 = sourceNumber j ↔ id = sourceId j := by
  rw [← setWidth_sourceId, ← BitVec.toNat_inj, ← BitVec.toNat_inj,
    BitVec.toNat_setWidth_of_le (by decide), BitVec.toNat_setWidth_of_le (by decide)]

/-- **A claim takes the source that its read returns.** -/
theorem claimTakes_eq_claimed (j : Source N) : claimTakes s i j = claimed s i j := by
  rw [Bool.eq_iff_iff, claimTakes_iff, claimed, Bool.and_eq_true, Bool.or_eq_true, beq_iff_eq]
  constructor
  · rintro ⟨c, hr, hid⟩
    refine ⟨by cases c; exact .inl hr; exact .inr hr, ?_⟩
    rw [readData_of_readsClaim hr, setWidth_eq_sourceNumber_iff]
    exact hid
  · rintro ⟨hr | hr, hid⟩
    all_goals
      rw [readData_of_readsClaim hr, setWidth_eq_sourceNumber_iff] at hid
      exact ⟨_, hr, hid⟩

/-- A completion takes effect where it finds the gateway busy. -/
theorem completes_eq (j : Source N) : completes s i j = (completion i j && s.gatewayBusy j) := by
  have haccess : ∀ c, i.addr = claimAddr c → plicAccess i = true := by
    intro c h
    rw [plicAccess, h]
    cases c <;> decide
  have hwrite : completeWrite i =
      (i.writeEnable && (i.addr == claimMAddr || i.addr == claimSAddr)) := by
    rw [completeWrite, Bool.eq_iff_iff]
    simp only [Bool.and_eq_true, Bool.or_eq_true, beq_iff_eq]
    constructor
    · rintro ⟨⟨hw, -⟩, ha⟩
      exact ⟨hw, ha⟩
    · rintro ⟨hw, ha⟩
      exact ⟨⟨hw, ha.elim (haccess .machine) (haccess .supervisor)⟩, ha⟩
  rw [completes, hwrite]
  rfl

/-! ## One cycle -/

/-- **Pending after a cycle**: a forwarded request, or an old one that is not claimed. -/
theorem pending_next (j : Source N) :
    (next s i).pending j = (forwards s i j || (s.pending j && !claimed s i j)) := by
  rw [← claimTakes_eq_claimed]
  change (if completes s i j = true then _ else _) = _
  unfold forwards
  cases completes s i j <;> cases i.sourceIrq j <;> cases s.gatewayBusy j <;>
    cases claimTakes s i j <;> simp

/-- **The gateway after a cycle**: busy until a completion, unless the source is high. -/
theorem gatewayBusy_next (j : Source N) :
    (next s i).gatewayBusy j = (i.sourceIrq j || (s.gatewayBusy j && !completion i j)) := by
  change (if completes s i j = true then _ else _) = _
  rw [completes_eq]
  cases completion i j <;> cases i.sourceIrq j <;> cases s.gatewayBusy j <;> rfl

/-- A claim takes a source that is pending. -/
theorem pending_of_claimed (h : claimed s i j = true) : s.pending j = true := by
  rw [← claimTakes_eq_claimed, claimTakes_iff] at h
  obtain ⟨c, -, hid⟩ := h
  exact (((arbitrates s c).best j).mp hid).1.1

/-! ## Claims against completions -/

/-- The claims of source `j` in the first `n` cycles. -/
def claimCount (ins : ℕ → PlicIn N) (j : Source N) (n : ℕ) : ℕ :=
  Nat.count (fun m => claimed (run ins m) (ins m) j = true) n

/-- The completion writes of source `j` in the first `n` cycles. -/
def completionCount (ins : ℕ → PlicIn N) (j : Source N) (n : ℕ) : ℕ :=
  Nat.count (fun m => completion (ins m) j = true) n

/-- **Step.** A cycle adds to the claims and the pending request no more than to the completions and
the busy gateway. -/
theorem balance_next (s : Plic N) (i : PlicIn N) (j : Source N) :
    (claimed s i j).toNat + ((next s i).pending j).toNat + (s.gatewayBusy j).toNat ≤
      (completion i j).toNat + ((next s i).gatewayBusy j).toNat + (s.pending j).toNat := by
  have hp : claimed s i j = true → s.pending j = true := pending_of_claimed
  rw [pending_next, gatewayBusy_next, forwards, completes_eq]
  revert hp
  cases claimed s i j <;> cases s.pending j <;> cases completion i j <;> cases i.sourceIrq j <;>
    cases s.gatewayBusy j <;> simp

/-- **Run.** Claims and the pending request never exceed the completions and the busy gateway. -/
theorem balance_run (ins : ℕ → PlicIn N) (j : Source N) (n : ℕ) :
    claimCount ins j n + ((run ins n).pending j).toNat ≤
      completionCount ins j n + ((run ins n).gatewayBusy j).toNat := by
  induction n with
  | zero => exact le_rfl
  | succ n ih =>
    have hstep := balance_next (run ins n) (ins n) j
    have hclaims : claimCount ins j (n + 1) =
        claimCount ins j n + (claimed (run ins n) (ins n) j).toNat := by
      rw [claimCount, Nat.count_succ, Bool.toNat, Bool.cond_eq_ite]
      rfl
    have hcompletions : completionCount ins j (n + 1) =
        completionCount ins j n + (completion (ins n) j).toNat := by
      rw [completionCount, Nat.count_succ, Bool.toNat, Bool.cond_eq_ite]
      rfl
    rw [hclaims, hcompletions, run_succ]
    omega

/-! ## Requests that wait for their completion -/

/-- Source `j` has been claimed before cycle `n`, and since then it has not been forwarded and no
completion of it has arrived. -/
def InService (ins : ℕ → PlicIn N) (j : Source N) (n : ℕ) : Prop :=
  ∃ c < n, claimed (run ins c) (ins c) j = true ∧
    ∀ m, c ≤ m → m < n → forwards (run ins m) (ins m) j = false ∧ completion (ins m) j = false

/-- **A busy gateway has its request pending or in service.** -/
theorem inService_of_busy (ins : ℕ → PlicIn N) (j : Source N) (n : ℕ)
    (hb : (run ins n).gatewayBusy j = true) (hp : (run ins n).pending j = false) :
    InService ins j n := by
  induction n with
  | zero => exact absurd hb Bool.false_ne_true
  | succ n ih =>
    rw [run_succ, pending_next, Bool.or_eq_false_iff] at hp
    obtain ⟨hf, hp⟩ := hp
    rw [run_succ, gatewayBusy_next] at hb
    -- Nothing is forwarded, so the gateway was busy before and no completion has freed it.
    have hbusy : (run ins n).gatewayBusy j = true ∧ completion (ins n) j = false := by
      rw [forwards, completes_eq] at hf
      revert hf hb
      cases (ins n).sourceIrq j <;> cases completion (ins n) j <;>
        cases (run ins n).gatewayBusy j <;> simp
    cases hpn : (run ins n).pending j
    · obtain ⟨c, hc, hcl, hsince⟩ := ih hbusy.1 hpn
      refine ⟨c, by omega, hcl, fun m hcm hm => ?_⟩
      rcases Nat.lt_succ_iff_lt_or_eq.mp hm with hm | rfl
      · exact hsince m hcm hm
      · exact ⟨hf, hbusy.2⟩
    · have hcl : claimed (run ins n) (ins n) j = true := by simpa [hpn] using hp
      refine ⟨n, by omega, hcl, fun m hcm hm => ?_⟩
      obtain rfl : m = n := by omega
      exact ⟨hf, hbusy.2⟩

/-- **The gateway loses no request and delivers none twice**, for source `j` in cycle `n`: at most
one claim is ahead of the completions; a source that is high is pending afterwards, or it has been
claimed and neither forwarded nor completed since; and pending is cleared by a claim that returns
the source and by nothing else. -/
structure GatewayExact (ins : ℕ → PlicIn N) (j : Source N) (n : ℕ) : Prop where
  claims : claimCount ins j n ≤ completionCount ins j n + 1
  kept : (ins n).sourceIrq j = true →
    (run ins (n + 1)).pending j = true ∨ InService ins j (n + 1)
  cleared : (run ins n).pending j = true → (run ins (n + 1)).pending j = false →
    claimed (run ins n) (ins n) j = true

/-- **The gateway is exact in every run**, for any accesses of both contexts and any source
lines. -/
theorem run_gatewayExact (ins : ℕ → PlicIn N) (j : Source N) (n : ℕ) : GatewayExact ins j n := by
  constructor
  case claims =>
    have hbalance := balance_run ins j n
    have hbusy := Bool.toNat_le ((run ins n).gatewayBusy j)
    omega
  case kept =>
    intro hirq
    cases hp : (run ins (n + 1)).pending j
    · refine .inr (inService_of_busy ins j (n + 1) ?_ hp)
      rw [run_succ, gatewayBusy_next, hirq, Bool.true_or]
    · exact .inl rfl
  case cleared =>
    intro hp hp'
    rw [run_succ, pending_next, hp, Bool.or_eq_false_iff] at hp'
    simpa using hp'.2

end Plic

end Synapse32
