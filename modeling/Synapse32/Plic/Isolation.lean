import Synapse32.Plic.Gateway

/-! # What one PLIC context sees of the other

The two contexts share `pending` and `gateway_busy`. A claim takes only a source that is enabled for
its own context, but a completion is taken for any source, and a source that changes hands brings
its gateway along. This file compares two runs that differ in the accesses of one context, as the
other sees them. -/

namespace Synapse32

namespace Plic

variable {N : NumSources} {s t : Plic N} {i k : PlicIn N} {c : PlicContext} {j : Source N}

/-! ## Who claims, who completes -/

/-- The claim of context `c` takes source `j`. -/
def takes (s : Plic N) (i : PlicIn N) (c : PlicContext) (j : Source N) : Bool :=
  readsClaim i c && claimId s c == sourceId j

/-- A completion of context `c` takes effect on source `j`: it finds the gateway busy. -/
def completesAs (s : Plic N) (i : PlicIn N) (c : PlicContext) (j : Source N) : Bool :=
  i.writeEnable && i.addr == claimAddr c && i.writeData == sourceNumber j && s.gatewayBusy j

/-- **A completion of context `c` alters source `j`**: it frees the gateway, or makes the source
pending. One of a source that is high and pending already does neither. -/
def alters (s : Plic N) (i : PlicIn N) (c : PlicContext) (j : Source N) : Bool :=
  completesAs s i c j && !(i.sourceIrq j && s.pending j)

/-- A claim takes a source for the one context or for the other. -/
theorem claimed_eq (c : PlicContext) (j : Source N) :
    claimed s i j = (takes s i c j || takes s i c.other j) := by
  rw [← claimTakes_eq_claimed, Bool.eq_iff_iff, claimTakes_iff, Bool.or_eq_true]
  simp only [takes, Bool.and_eq_true, beq_iff_eq]
  constructor
  · rintro ⟨c', h⟩
    cases c <;> cases c' <;> first | exact .inl h | exact .inr h
  · rintro (h | h) <;> exact ⟨_, h⟩

/-- A completion is made by the one context or by the other. -/
theorem completes_eq_as (c : PlicContext) (j : Source N) :
    completes s i j = (completesAs s i c j || completesAs s i c.other j) := by
  rw [completes_eq, completion]
  unfold completesAs
  cases c <;> cases i.writeEnable <;> cases i.writeData == sourceNumber j <;>
    cases s.gatewayBusy j <;> simp [claimAddr, PlicContext.other, Bool.or_comm]

/-! ## Accesses of one context -/

/-- The cycle accesses nothing, or a register of context `c` alone. -/
def accessesOnly (i : PlicIn N) (c : PlicContext) : Bool :=
  (!i.writeEnable && !i.readEnable) || i.addr == enableAddr c || i.addr == thresholdAddr c ||
    i.addr == claimAddr c

/-- **Two cycles that are the same but for the other context**: the sources are the same, and so is
the access, or it is in both one to registers of the other context alone. -/
structure SameFor (c : PlicContext) (i k : PlicIn N) : Prop where
  irq : i.sourceIrq = k.sourceIrq
  access : i = k ∨ (accessesOnly i c.other = true ∧ accessesOnly k c.other = true)

/-- The registers that context `c` shares or owns. -/
def OwnAddr (N : NumSources) (c : PlicContext) (a : Word) : Prop :=
  a = enableAddr c ∨ a = thresholdAddr c ∨ a = claimAddr c ∨ ∃ j : Source N, a = priorityAddr j

/-- They are not the other context's. -/
theorem ne_of_ownAddr {a : Word} (h : OwnAddr N c a) :
    a ≠ enableAddr c.other ∧ a ≠ thresholdAddr c.other ∧ a ≠ claimAddr c.other := by
  rcases h with rfl | rfl | rfl | ⟨j, rfl⟩
  · cases c <;> decide
  · cases c <;> decide
  · cases c <;> decide
  · have hj := j.isLt
    have hN := N.le
    have hlow : (priorityAddr j).toNat = 0x0C000000 + 4 * (j + 1) := by
      rw [priorityAddr, BitVec.toNat_add, BitVec.toNat_ofNat, BitVec.toNat_ofNat]
      omega
    have hne : ∀ a : Word, 0x0C001000 ≤ a.toNat → priorityAddr j ≠ a := by
      rintro a ha rfl
      omega
    refine ⟨hne _ ?_, hne _ ?_, hne _ ?_⟩ <;> cases c <;> decide

/-- An access of the other context alone touches none of them. -/
theorem untouched {a : Word} (h : accessesOnly i c.other = true) (ha : OwnAddr N c a) :
    (i.writeEnable && i.addr == a) = false ∧ (i.readEnable && i.addr == a) = false := by
  obtain ⟨he, ht, hc⟩ := ne_of_ownAddr ha
  simp only [accessesOnly, Bool.or_eq_true, Bool.and_eq_true, Bool.not_eq_true', beq_iff_eq] at h
  rcases h with ((⟨hw, hr⟩ | h) | h) | h
  · simp [hw, hr]
  all_goals
    have hne : (i.addr == a) = false := by
      rw [h]
      exact beq_false_of_ne (Ne.symm ‹_›)
    simp [hne]

/-- **Such cycles agree on every access to a register of `c`.** -/
theorem SameFor.write {a : Word} (h : SameFor c i k) (ha : OwnAddr N c a) :
    (i.writeEnable && i.addr == a) = (k.writeEnable && k.addr == a) ∧
      ((i.writeEnable && i.addr == a) = true → i.writeData = k.writeData) := by
  rcases h.access with rfl | ⟨hi, hk⟩
  · exact ⟨rfl, fun _ => rfl⟩
  · rw [(untouched hi ha).1, (untouched hk ha).1]
    exact ⟨rfl, fun h => absurd h Bool.false_ne_true⟩

/-- They agree on whether `c` reads its claim register. -/
theorem SameFor.read (h : SameFor c i k) : readsClaim i c = readsClaim k c := by
  rcases h.access with rfl | ⟨hi, hk⟩
  · rfl
  · have ha : OwnAddr N c (claimAddr c) := .inr (.inr (.inl rfl))
    exact ((untouched hi ha).2).trans ((untouched hk ha).2).symm

/-! ## One cycle in both runs -/

/-- Context `c` has the same registers. -/
structure SameRegisters (c : PlicContext) (s t : Plic N) : Prop where
  priorityQ : s.priorityQ = t.priorityQ
  enable : enable s c = enable t c
  threshold : threshold s c = threshold t c

/-- The write enable of a register, where the register is one of the PLIC's. -/
theorem writes_eq {a : Word} (h : isPlicMem a = true) :
    writes i a = (i.writeEnable && i.addr == a) := by
  rw [writes, plicAccess, Bool.eq_iff_iff]
  simp only [Bool.and_eq_true, beq_iff_eq]
  constructor
  · rintro ⟨⟨hw, -⟩, ha⟩
    exact ⟨hw, ha⟩
  · rintro ⟨hw, ha⟩
    exact ⟨⟨hw, ha ▸ h⟩, ha⟩

/-- The registers of a context are the PLIC's. -/
theorem isPlicMem_of_ownAddr {a : Word} (h : OwnAddr N c a) : isPlicMem a = true := by
  rcases h with rfl | rfl | rfl | ⟨j, rfl⟩
  · cases c <;> decide
  · cases c <;> decide
  · cases c <;> decide
  · have hj := j.isLt
    have hN := N.le
    simp only [isPlicMem, priorityAddr, Bool.and_eq_true, decide_eq_true_eq, BitVec.le_def,
      BitVec.toNat_add, BitVec.toNat_ofNat]
    omega

/-- The enables of a context after a cycle. -/
theorem enable_next (c : PlicContext) :
    enable (next s i) c =
      if writes i (enableAddr c) then fun j : Source N => i.writeData.getLsbD (j + 1)
      else enable s c := by
  cases c <;> rfl

/-- The threshold of a context after a cycle. -/
theorem threshold_next (c : PlicContext) :
    threshold (next s i) c =
      if writes i (thresholdAddr c) then i.writeData.extractLsb' 0 3 else threshold s c := by
  cases c <;> rfl

/-- **Step, registers.** They stay the same whatever the other context does. -/
theorem SameRegisters.next (h : SameRegisters c s t) (hi : SameFor c i k) :
    SameRegisters c (next s i) (next t k) := by
  have hwrite : ∀ {a}, OwnAddr N c a → writes i a = writes k a ∧
      (writes i a = true → i.writeData = k.writeData) := by
    intro a ha
    rw [writes_eq (isPlicMem_of_ownAddr ha), writes_eq (isPlicMem_of_ownAddr ha)]
    exact hi.write ha
  constructor
  · funext j
    obtain ⟨hw, hd⟩ := hwrite (.inr (.inr (.inr ⟨j, rfl⟩)))
    change (if writes i (priorityAddr j) = true then _ else _) =
      (if writes k (priorityAddr j) = true then _ else _)
    rw [← hw, h.priorityQ]
    split
    · rw [hd ‹_›]
    · rfl
  · obtain ⟨hw, hd⟩ := hwrite (.inl rfl)
    rw [enable_next, enable_next, ← hw, h.enable]
    split
    · rw [hd ‹_›]
    · rfl
  · obtain ⟨hw, hd⟩ := hwrite (.inr (.inl rfl))
    rw [threshold_next, threshold_next, ← hw, h.threshold]
    split
    · rw [hd ‹_›]
    · rfl

/-- The two contexts have no source enabled in common. -/
def DisjointEnables (s : Plic N) : Prop :=
  ∀ j, (enable s .machine j && enable s .supervisor j) = false

/-- A source that a context has enabled is not the other's. -/
theorem DisjointEnables.other (h : DisjointEnables s) (hj : enable s c j = true) :
    enable s c.other j = false := by
  have hboth := h j
  cases c
  · rwa [hj, Bool.true_and] at hboth
  · rwa [hj, Bool.and_true] at hboth

/-- Source `j` has the same request pending, and the same gateway. -/
def SameRequest (s t : Plic N) (j : Source N) : Prop :=
  s.pending j = t.pending j ∧ s.gatewayBusy j = t.gatewayBusy j

/-- **Context `c` claims the same source**, if the sources it has enabled are the same. -/
theorem winner_eq (hr : SameRegisters c s t)
    (hq : ∀ j, enable s c j = true → SameRequest s t j) : winner s c = winner t c := by
  have hok : (fun j => s.pending j && enable s c j) = fun j => t.pending j && enable t c j := by
    funext j
    rw [← hr.enable]
    cases he : enable s c j
    · rw [Bool.and_false, Bool.and_false]
    · rw [(hq j he).1]
  have hprio : priority s = priority t := by
    funext j
    rw [priority, priority, hr.priorityQ]
  rw [winner, winner, hok, hprio, hr.threshold]

/-- A context claims only what it has enabled. -/
theorem takes_of_disabled (h : enable s c j = false) : takes s i c j = false := by
  by_contra ht
  rw [takes, Bool.not_eq_false, Bool.and_eq_true, beq_iff_eq] at ht
  have hen := (((arbitrates s c).best j).mp ht.2).1.2.1
  rw [h] at hen
  exact Bool.false_ne_true hen

/-- A cycle that accesses the registers of one context alone claims and completes nothing for the
other. -/
theorem untouched_requests (h : accessesOnly i c.other = true) (j : Source N) :
    takes s i c j = false ∧ completesAs s i c j = false := by
  obtain ⟨hw, hr⟩ := untouched h (.inr (.inr (.inl rfl)) : OwnAddr N c (claimAddr c))
  constructor
  · rw [takes, readsClaim, hr, Bool.false_and]
  · rw [completesAs, hw, Bool.false_and, Bool.false_and]

/-- **Step, requests.** A source that the other context claims in neither run stays the same exactly
if the completions of that context alter it in both runs or in none. -/
theorem sameRequest_next_iff (hr : SameRegisters c s t) (hi : SameFor c i k)
    (hq : ∀ j, enable s c j = true → SameRequest s t j) (hj : SameRequest s t j)
    (hst : takes s i c.other j = false) (htt : takes t k c.other j = false) :
    SameRequest (next s i) (next t k) j ↔ alters s i c.other j = alters t k c.other j := by
  obtain ⟨hp, hb⟩ := hj
  have hbusy : ∀ (s : Plic N) (i : PlicIn N), (s.gatewayBusy j && !completion i j) =
      (s.gatewayBusy j && !completes s i j) := by
    intro s i
    rw [completes_eq]
    cases s.gatewayBusy j <;> simp
  rw [SameRequest, pending_next, pending_next, gatewayBusy_next, gatewayBusy_next, hbusy, hbusy,
    forwards, forwards, claimed_eq c, claimed_eq c, completes_eq_as c, completes_eq_as c, hst, htt,
    ← hi.irq, alters, alters, ← hi.irq, ← hp, ← hb]
  rcases hi.access with rfl | ⟨hi', hk'⟩
  · -- The same access does the same in both runs.
    have hid : claimId s c = claimId t c := by rw [claimId_eq, claimId_eq, winner_eq hr hq]
    have hclaim : takes s i c j = takes t i c j := by rw [takes, takes, hid]
    have hcomplete : ∀ c, completesAs s i c j = completesAs t i c j := by
      intro c
      rw [completesAs, completesAs, hb]
    rw [hclaim, hcomplete, hcomplete]
    exact ⟨fun _ => rfl, fun _ => ⟨rfl, rfl⟩⟩
  · obtain ⟨hclaim, hcomplete⟩ := untouched_requests (s := s) hi' j
    obtain ⟨hclaim', hcomplete'⟩ := untouched_requests (s := t) hk' j
    have hcs : completesAs s i c.other j = true → s.gatewayBusy j = true := by
      rw [completesAs, Bool.and_eq_true]
      exact fun h => h.2
    have hct : completesAs t k c.other j = true → s.gatewayBusy j = true := by
      rw [completesAs, Bool.and_eq_true, ← hb]
      exact fun h => h.2
    rw [hclaim, hclaim', hcomplete, hcomplete']
    revert hcs hct
    cases completesAs s i c.other j <;> cases completesAs t k c.other j <;>
      cases s.gatewayBusy j <;> cases s.pending j <;> cases i.sourceIrq j <;> simp

/-- An access names one register. -/
theorem addr_of_writes {a : Word} (h : writes i a = true) : i.addr = a := by
  rw [writes, Bool.and_eq_true, beq_iff_eq] at h
  exact h.2

/-- A write of enables completes nothing. -/
theorem alters_of_enableAddr (h : i.addr = enableAddr c) : alters s i c.other j = false := by
  have hne : (i.addr == claimAddr c.other) = false := by
    rw [h]
    cases c <;> decide
  rw [alters, completesAs, hne]
  simp

/-! ## Two runs -/

/-- **The other context keeps away** from the sources of `c` in cycle `m` of the two runs. What its
completions alter of them, they alter in both runs; and a source that `c` comes to enable has the
same request pending then, and the same gateway. -/
structure KeepsAway (c : PlicContext) (ins ins' : ℕ → PlicIn N) (m : ℕ) : Prop where
  completions : ∀ j, enable (run ins m) c j = true →
    alters (run ins m) (ins m) c.other j = alters (run ins' m) (ins' m) c.other j
  handover : ∀ j, enable (run ins m) c j = false → enable (run ins (m + 1)) c j = true →
    SameRequest (run ins (m + 1)) (run ins' (m + 1)) j

/-- What context `c` observes in cycle `n`: its interrupt line and what its claim reads return. -/
structure SeesSame (c : PlicContext) (ins ins' : ℕ → PlicIn N) (n : ℕ) : Prop where
  line : externalInterrupt (run ins n) c = externalInterrupt (run ins' n) c
  claims : readsClaim (ins n) c = readsClaim (ins' n) c
  claim : readsClaim (ins n) c = true →
    readData (run ins n) (ins n) = readData (run ins' n) (ins' n)

variable {ins ins' : ℕ → PlicIn N} {n : ℕ}

/-- **Run, registers.** -/
theorem sameRegisters_run (h : ∀ m < n, SameFor c (ins m) (ins' m)) :
    SameRegisters c (run ins n) (run ins' n) := by
  induction n with
  | zero => exact ⟨rfl, rfl, rfl⟩
  | succ n ih => exact (ih fun m hm => h m (by omega)).next (h n (by omega))

/-- No source is enabled at reset. -/
theorem enable_reset (c : PlicContext) (j : Source N) : enable (reset : Plic N) c j = false := by
  cases c <;> rfl

/-- **Run, requests.** The sources that `c` has enabled are the same all along exactly if the other
context keeps away from them. -/
theorem sameRequests_iff (h : ∀ m < n, SameFor c (ins m) (ins' m))
    (hs : ∀ m < n, DisjointEnables (run ins m)) (ht : ∀ m < n, DisjointEnables (run ins' m)) :
    (∀ m ≤ n, ∀ j, enable (run ins m) c j = true → SameRequest (run ins m) (run ins' m) j) ↔
      ∀ m < n, KeepsAway c ins ins' m := by
  have hregs : ∀ m ≤ n, SameRegisters c (run ins m) (run ins' m) :=
    fun m hm => sameRegisters_run fun k hk => h k (by omega)
  -- Whatever the other context claims, it is not a source that `c` has enabled.
  have hst : ∀ m < n, ∀ j, enable (run ins m) c j = true →
      takes (run ins m) (ins m) c.other j = false :=
    fun m hm j hj => takes_of_disabled ((hs m hm).other hj)
  have htt : ∀ m < n, ∀ j, enable (run ins m) c j = true →
      takes (run ins' m) (ins' m) c.other j = false := by
    intro m hm j hj
    rw [(hregs m hm.le).enable] at hj
    exact takes_of_disabled ((ht m hm).other hj)
  constructor
  · intro hq m hm
    constructor
    · intro j hj
      cases hnext : enable (run ins (m + 1)) c j
      · -- The cycle in which `c` drops the source accesses nothing else.
        have hw : writes (ins m) (enableAddr c) = true := by
          by_contra hw
          rw [run_succ, enable_next, if_neg hw, hj] at hnext
          exact absurd hnext.symm Bool.false_ne_true
        have hown : OwnAddr N c (enableAddr c) := .inl rfl
        have haddr := addr_of_writes hw
        have haddr' : (ins' m).addr = enableAddr c := by
          have hsame := ((h m hm).write hown).1
          rw [← writes_eq (isPlicMem_of_ownAddr hown),
            ← writes_eq (isPlicMem_of_ownAddr hown)] at hsame
          exact addr_of_writes (hsame.symm.trans hw)
        rw [alters_of_enableAddr haddr, alters_of_enableAddr haddr']
      · exact (sameRequest_next_iff (hregs m hm.le) (h m hm) (hq m hm.le) (hq m hm.le j hj)
          (hst m hm j hj) (htt m hm j hj)).mp (hq (m + 1) hm j hnext)
    · exact fun j _ hj => hq (m + 1) hm j hj
  · intro hk m
    induction m with
    | zero =>
      intro _ j hj
      rw [show run ins 0 = reset from rfl, enable_reset] at hj
      exact absurd hj Bool.false_ne_true
    | succ m ih =>
      intro hm j hj
      cases hold : enable (run ins m) c j
      · exact (hk m hm).handover j hold hj
      · exact (sameRequest_next_iff (hregs m (by omega)) (h m hm) (ih (by omega))
          (ih (by omega) j hold) (hst m hm j hold) (htt m hm j hold)).mpr
            ((hk m hm).completions j hold)

/-- **Completions are the only way across** where no source changes hands: if the other context
never enables a source that `c` enables in some cycle, it keeps away as long as its completions
alter these sources in both runs or in none. -/
theorem keepsAway_of_apart (h : ∀ m < n, SameFor c (ins m) (ins' m))
    (hown : ∀ j, (∃ k ≤ n, enable (run ins k) c j = true) → ∀ m < n,
      enable (run ins m) c.other j = false ∧ enable (run ins' m) c.other j = false)
    (ha : ∀ j, (∃ k ≤ n, enable (run ins k) c j = true) → ∀ m < n,
      alters (run ins m) (ins m) c.other j = alters (run ins' m) (ins' m) c.other j) :
    ∀ m < n, KeepsAway c ins ins' m := by
  have hsame : ∀ m ≤ n, ∀ j, (∃ k ≤ n, enable (run ins k) c j = true) →
      SameRequest (run ins m) (run ins' m) j := by
    intro m
    induction m with
    | zero => exact fun _ j _ => ⟨rfl, rfl⟩
    | succ m ih =>
      intro hm j hj
      have hq : ∀ j, enable (run ins m) c j = true → SameRequest (run ins m) (run ins' m) j :=
        fun j hj => ih (by omega) j ⟨m, by omega, hj⟩
      obtain ⟨hs, ht⟩ := hown j hj m hm
      exact (sameRequest_next_iff (sameRegisters_run fun k hk => h k (by omega)) (h m hm) hq
        (ih (by omega) j hj) (takes_of_disabled hs) (takes_of_disabled ht)).mpr (ha j hj m hm)
  intro m hm
  exact ⟨fun j hj => ha j ⟨m, hm.le, hj⟩ m hm, fun j _ hj => hsame (m + 1) hm j ⟨m + 1, hm, hj⟩⟩

/-- **A context sees nothing of the other**: in two runs that differ in the accesses to the other
context's registers alone, in which no source is enabled for both at a time, and in which the other
context keeps away, it observes the same. -/
theorem run_seesSame (h : ∀ m ≤ n, SameFor c (ins m) (ins' m))
    (hs : ∀ m < n, DisjointEnables (run ins m)) (ht : ∀ m < n, DisjointEnables (run ins' m))
    (hk : ∀ m < n, KeepsAway c ins ins' m) : SeesSame c ins ins' n := by
  have hbelow : ∀ m < n, SameFor c (ins m) (ins' m) := fun m hm => h m hm.le
  have hid : claimId (run ins n) c = claimId (run ins' n) c := by
    rw [claimId_eq, claimId_eq, winner_eq (sameRegisters_run hbelow)]
    exact (sameRequests_iff hbelow hs ht).mpr hk n le_rfl
  constructor
  · rw [externalInterrupt_eq, externalInterrupt_eq, hid]
  · exact (h n le_rfl).read
  · intro hr
    rw [readData_of_readsClaim hr, readData_of_readsClaim ((h n le_rfl).read ▸ hr), hid]

/-- Two sources. -/
def twoSources : NumSources := ⟨2, by decide, by decide⟩

/-- The registers of the accesses of a run: machine mode enables source 1; supervisor mode enables,
claims, completes and disables source 2; and then machine mode enables source 2 as well and claims
both. -/
def handoverAddr : ℕ → Word
  | 0 => enableMAddr
  | 1 => enableSAddr
  | 2 | 3 => claimSAddr
  | 4 => enableSAddr
  | 5 => enableMAddr
  | _ => claimMAddr

/-- The data of its writes. -/
def handoverData : ℕ → Word
  | 0 => 2#32
  | 1 => 4#32
  | 3 => 2#32
  | 5 => 6#32
  | _ => 0#32

/-- That run, in which supervisor mode serves source 2 first or leaves it alone. -/
def handover (serves : Bool) (n : ℕ) : PlicIn twoSources where
  addr := handoverAddr n
  writeData := handoverData n
  writeEnable := n == 0 || n == 5 || (serves && (n == 1 || n == 3 || n == 4))
  readEnable := (serves && n == 2) || decide (6 ≤ n)
  sourceIrq := fun _ => true

/-- Machine mode claims source 2 in either run, also if supervisor mode has served it before. -/
theorem seesSame_handover :
    SeesSame .machine (handover true) (handover false) 7 ∧
      takes (run (handover true) 2) (handover true 2) .supervisor ⟨1, by decide⟩ = true ∧
      alters (run (handover true) 3) (handover true 3) .supervisor ⟨1, by decide⟩ = true ∧
      readData (run (handover true) 7) (handover true 7) = 2#32 := by
  have hdisjoint : ∀ b, ∀ m < 7, DisjointEnables (run (handover b) m) := by
    unfold DisjointEnables
    decide +kernel
  have hcompletions : ∀ m < 7, ∀ j, enable (run (handover true) m) .machine j = true →
      alters (run (handover true) m) (handover true m) .supervisor j =
        alters (run (handover false) m) (handover false m) .supervisor j := by decide +kernel
  have hhandover : ∀ m < 7, ∀ j, enable (run (handover true) m) .machine j = false →
      enable (run (handover true) (m + 1)) .machine j = true →
      SameRequest (run (handover true) (m + 1)) (run (handover false) (m + 1)) j := by
    unfold SameRequest
    decide +kernel
  refine ⟨run_seesSame (fun m _ => ⟨rfl, ?_⟩) (hdisjoint true) (hdisjoint false)
    (fun m hm => ⟨hcompletions m hm, hhandover m hm⟩), by decide +kernel⟩
  rcases m with _ | _ | _ | _ | _ | _ | m
  · exact .inl rfl
  · exact .inr ⟨rfl, rfl⟩
  · exact .inr ⟨rfl, rfl⟩
  · exact .inr ⟨rfl, rfl⟩
  · exact .inr ⟨rfl, rfl⟩
  · exact .inl rfl
  · exact .inl rfl

/-- The registers of the accesses of a run: machine mode enables and claims source 1, and
supervisor mode, which has no source enabled, may complete it. -/
def foreignAddr : ℕ → Word
  | 0 => enableMAddr
  | 1 => claimMAddr
  | _ => claimSAddr

/-- That run; source 1 stays high. -/
def foreignCompletion (completes : Bool) (n : ℕ) : PlicIn twoSources where
  addr := foreignAddr n
  writeData := if n = 0 then 2#32 else 1#32
  writeEnable := n == 0 || (completes && n == 2)
  readEnable := n == 1
  sourceIrq := fun j => j.val == 0

/-- **A completion of the other context reaches across.** Supervisor mode has nothing enabled, and
machine mode's interrupt line rises in cycle 3 for the source that it is serving. -/
theorem foreignCompletion_seen :
    (∀ m, SameFor .machine (foreignCompletion false m) (foreignCompletion true m)) ∧
      (∀ b m j, enable (run (foreignCompletion b) m) .supervisor j = false) ∧
      externalInterrupt (run (foreignCompletion false) 3) .machine = false ∧
      externalInterrupt (run (foreignCompletion true) 3) .machine = true ∧
      ¬ SeesSame .machine (foreignCompletion false) (foreignCompletion true) 3 := by
  refine ⟨fun m => ⟨rfl, ?_⟩, fun b m j => ?_, by decide +kernel, by decide +kernel, fun h => ?_⟩
  · rcases m with _ | _ | m
    · exact .inl rfl
    · exact .inl rfl
    · have hclaim : ∀ b, accessesOnly (foreignCompletion b (m + 2)) .supervisor = true := by
        intro b
        rw [accessesOnly, show (foreignCompletion b (m + 2)).addr = claimSAddr from rfl]
        exact Bool.or_true _
      exact .inr ⟨hclaim false, hclaim true⟩
  · -- The enables of supervisor mode are not written.
    induction m with
    | zero => rfl
    | succ m ih =>
      rw [run_succ, enable_next, if_neg]
      · exact ih
      · intro hw
        have ha : foreignAddr m = enableSAddr := addr_of_writes hw
        rcases m with _ | _ | m
        · exact absurd ha (by decide)
        · exact absurd ha (by decide)
        · exact absurd ha (show claimSAddr ≠ enableSAddr by decide)
  · exact absurd h.line (by decide +kernel)

end Plic

end Synapse32
