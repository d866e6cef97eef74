import Synapse32.Rtl.Sv32
import Synapse32.Lib.Clocked
import Synapse32.Cache.Step

/-! # What the MMU holds

The TLB, the registered fill, the held faults and a walk in progress hold what walks have found
since the last flush. This file says what one cycle adds to it, for any meaning of a leaf, a fault
and a pointer. -/

namespace Synapse32

/-! ## Pages -/

/-- Part of a page number. -/
theorem extract_page (va : Word) {start : ℕ} (h : start + 10 ≤ 20) :
    va.extractLsb' (12 + start) 10 = (va.extractLsb' 12 20).extractLsb' start 10 := by
  apply BitVec.eq_of_getLsbD_eq
  intro i hi
  have hlt : start + i < 20 := by omega
  simp [BitVec.getLsbD_extractLsb', hlt, Nat.add_assoc]

/-- Addresses of one page agree in both halves of the page number. -/
theorem vpn_of_page {va va' : Word}
    (h : va.extractLsb' 12 20 = va'.extractLsb' 12 20) :
    va.extractLsb' 22 10 = va'.extractLsb' 22 10 ∧
      va.extractLsb' 12 10 = va'.extractLsb' 12 10 := by
  have hpart : ∀ start, start + 10 ≤ 20 →
      va.extractLsb' (12 + start) 10 = va'.extractLsb' (12 + start) 10 := by
    intro start hle
    rw [extract_page va hle, extract_page va' hle, h]
  exact ⟨hpart 10 (by decide), hpart 0 (by decide)⟩

/-- The entry that a registered fill writes. -/
def TlbFill.toEntry (f : TlbFill) : TlbEntry :=
  ⟨f.en, f.vaddr.extractLsb' 12 20, f.megapage, f.pte⟩

/-- An entry matches the pages of its own megapage, or its own page. -/
theorem TlbFill.of_matches {f : TlbFill} {va : Word} (h : f.toEntry.matches va = true) :
    f.en = true ∧ f.vaddr.extractLsb' 22 10 = va.extractLsb' 22 10 ∧
      (f.megapage = false → f.vaddr.extractLsb' 12 20 = va.extractLsb' 12 20) := by
  have hvpn : (f.vaddr.extractLsb' 12 20).extractLsb' 10 10 = f.vaddr.extractLsb' 22 10 :=
    (extract_page f.vaddr (by decide)).symm
  rw [TlbEntry.matches, Bool.and_eq_true] at h
  obtain ⟨hen, h⟩ := h
  refine ⟨hen, ?_⟩
  cases hmega : f.megapage
  · have hpage : f.vaddr.extractLsb' 12 20 = va.extractLsb' 12 20 := by
      simpa [toEntry, hmega] using h
    exact ⟨(vpn_of_page hpage).1, fun _ => hpage⟩
  · refine ⟨?_, nofun⟩
    rw [← hvpn]
    simpa [toEntry, hmega] using h

namespace Sv32Mmu

/-- **What the MMU holds is found**: a TLB entry or a fill is a leaf of every address it matches, a
held fault is one of every address of its page, and a walk at the last level, unless a fence has
overtaken it, follows a pointer of its address. -/
structure Holds (Leaf : Word → Bool → Word → Prop) (Fault : Word → Prop)
    (Pointer : Word → Word → Prop) (u : Sv32Mmu) : Prop where
  tlb : ∀ i va, (u.tlb.entry i).matches va = true →
    Leaf va (u.tlb.entry i).megapage (u.tlb.entry i).pte
  fill : ∀ va, u.fill.toEntry.matches va = true → Leaf va u.fill.megapage u.fill.pte
  instrFault : ∀ va, u.instrFault.isMatch va = true → Fault va
  dataFault : ∀ va, u.dataFault.isMatch va = true → Fault va
  walk : u.walk.state = .level0 → u.walk.aborted = false → Pointer u.walk.vaddr u.walk.level0Base

/-- What the answer of a cycle finds, and that what was found stays so. -/
structure Finds (u : Sv32Mmu) (x : MmuIn) (Leaf Leaf' : Word → Bool → Word → Prop)
    (Fault Fault' : Word → Prop) (Pointer Pointer' : Word → Word → Prop) : Prop where
  leaf : ∀ {va mega pte}, Leaf va mega pte → Leaf' va mega pte
  fault : ∀ {va}, Fault va → Fault' va
  pointer : ∀ {va base}, Pointer va base → Pointer' va base
  leaf1 : walkAnswered u x = true → u.walk.state = .level1 → pteUsable x.walkRdata = true →
    pteIsLeaf x.walkRdata = true → x.walkRdata.extractLsb' 10 10 = 0#10 →
    ∀ va, u.walk.vaddr.extractLsb' 22 10 = va.extractLsb' 22 10 → Leaf' va true x.walkRdata
  fault1 : walkAnswered u x = true → u.walk.state = .level1 →
    (pteUsable x.walkRdata = false ∨
      pteIsLeaf x.walkRdata = true ∧ x.walkRdata.extractLsb' 10 10 ≠ 0#10) →
    ∀ va, u.walk.vaddr.extractLsb' 12 20 = va.extractLsb' 12 20 → Fault' va
  pointer1 : walkAnswered u x = true → u.walk.state = .level1 → pteUsable x.walkRdata = true →
    pteIsLeaf x.walkRdata = false → Pointer' u.walk.vaddr (tableBase x.walkRdata)
  leaf0 : walkAnswered u x = true → u.walk.state = .level0 →
    Pointer u.walk.vaddr u.walk.level0Base → pteUsable x.walkRdata = true →
    pteIsLeaf x.walkRdata = true →
    ∀ va, u.walk.vaddr.extractLsb' 12 20 = va.extractLsb' 12 20 → Leaf' va false x.walkRdata
  fault0 : walkAnswered u x = true → u.walk.state = .level0 →
    Pointer u.walk.vaddr u.walk.level0Base →
    (pteUsable x.walkRdata = false ∨ pteIsLeaf x.walkRdata = false) →
    ∀ va, u.walk.vaddr.extractLsb' 12 20 = va.extractLsb' 12 20 → Fault' va

variable {u : Sv32Mmu} {x : MmuIn} {Leaf Leaf' : Word → Bool → Word → Prop}
  {Fault Fault' : Word → Prop} {Pointer Pointer' : Word → Word → Prop}

/-- After reset the TLB holds nothing. -/
theorem holds_reset : Holds Leaf Fault Pointer reset where
  tlb _ _ h := absurd h Bool.false_ne_true
  fill _ h := absurd h Bool.false_ne_true
  instrFault _ h := absurd h Bool.false_ne_true
  dataFault _ h := absurd h Bool.false_ne_true
  walk := nofun

/-- An answered walk is at one of the two levels, and no fence has overtaken it. -/
theorem of_walkAnswered (h : walkAnswered u x = true) :
    (u.walk.state = .level1 ∨ u.walk.state = .level0) ∧ x.walkRvalid = true ∧
      u.walk.aborted = false ∧ x.flushTlb = false := by
  simp only [walkAnswered, Bool.and_eq_true, Bool.not_eq_true', Bool.or_eq_false_iff, bne_iff_ne,
    ne_eq] at h
  obtain ⟨⟨hs, hv⟩, hab, hf⟩ := h
  refine ⟨?_, hv, hab, hf⟩
  cases hst : u.walk.state
  case idle => exact absurd hst hs
  case level1 => exact .inl rfl
  case level0 => exact .inr rfl

/-- The walker reaches the last level by reading a pointer. -/
theorem nextWalk_level0 (hs : (nextWalk u x).state = .level0) :
    ((u.walk.state = .level0 ∧ (nextWalk u x).level0Base = u.walk.level0Base) ∨
      (walkAnswered u x = true ∧ walkFails u x = false ∧ pteIsLeaf x.walkRdata = false ∧
        (nextWalk u x).level0Base = tableBase x.walkRdata)) ∧
    (nextWalk u x).vaddr = u.walk.vaddr ∧
      (nextWalk u x).aborted = (u.walk.aborted || x.flushTlb) := by
  have hne : u.walk.state ≠ .idle := by
    intro hidle
    rw [nextWalk, hidle] at hs
    dsimp only at hs
    repeat' split at hs
    · cases hs
    · cases hs
    · exact absurd (hidle.symm.trans hs) (by decide)
  -- Both levels of a walk in progress handle an answer alike.
  have hwalk : nextWalk u x =
      let held := { u.walk with
        aborted := u.walk.aborted || x.flushTlb
        accepted := !x.walkRvalid && (u.walk.accepted || x.walkGnt) }
      if !x.walkRvalid then held
      else if walkAnswered u x && !walkFails u x && !pteIsLeaf x.walkRdata then
        { held with level0Base := tableBase x.walkRdata, state := .level0 }
      else { held with state := .idle } := by
    unfold nextWalk
    split
    · exact absurd ‹_› hne
    · rfl
  rw [hwalk] at hs ⊢
  dsimp only at hs ⊢
  split
  · rename_i hr
    rw [if_pos hr] at hs
    exact ⟨.inl ⟨hs, rfl⟩, rfl, rfl⟩
  · rename_i hr
    rw [if_neg hr] at hs
    split
    · rename_i hc
      simp only [Bool.and_eq_true, Bool.not_eq_true'] at hc
      exact ⟨.inr ⟨hc.1.1, hc.1.2, hc.2, rfl⟩, rfl, rfl⟩
    · rename_i hc
      rw [if_neg hc] at hs
      cases hs

/-- **A walk that ends in a leaf** has found the leaf of every address its entry matches. -/
theorem Holds.fill_next (h : Holds Leaf Fault Pointer u)
    (hx : Finds u x Leaf Leaf' Fault Fault' Pointer Pointer') (va : Word)
    (hm : (nextFill u x).toEntry.matches va = true) :
    Leaf' va (nextFill u x).megapage (nextFill u x).pte := by
  unfold nextFill at hm ⊢
  split at hm
  case isFalse => exact absurd hm Bool.false_ne_true
  case isTrue hc =>
    rw [if_pos hc]
    simp only [Bool.and_eq_true, Bool.not_eq_true'] at hc
    obtain ⟨⟨ha, hf⟩, hl⟩ := hc
    simp only [walkFails, Bool.or_eq_false_iff, Bool.not_eq_false'] at hf
    obtain ⟨⟨hu, halign⟩, -⟩ := hf
    obtain ⟨-, hvpn, hpage⟩ := TlbFill.of_matches hm
    obtain ⟨hlevel, -, hab, -⟩ := of_walkAnswered ha
    rcases hlevel with hst | hst
    · have hzero : x.walkRdata.extractLsb' 10 10 = 0#10 := by simpa [hl, hst] using halign
      have hmega : (u.walk.state == .level1) = true := by rw [hst]; rfl
      rw [hmega]
      exact hx.leaf1 ha hst hu hl hzero va hvpn
    · have hmega : (u.walk.state == .level1) = false := by rw [hst]; rfl
      rw [hmega]
      exact hx.leaf0 ha hst (h.walk hst hab) hu hl va (hpage hmega)

/-- **A walk that fails** has found that the translation of its page faults. -/
theorem Holds.fault_of_failedWalk (h : Holds Leaf Fault Pointer u)
    (hx : Finds u x Leaf Leaf' Fault Fault' Pointer Pointer') {side : WalkSide} {w va : Word}
    (hw : failedWalk u x side = some w) (hm : w.extractLsb' 12 20 = va.extractLsb' 12 20) :
    Fault' va := by
  unfold failedWalk at hw
  split at hw
  case isFalse => cases hw
  case isTrue hc =>
    obtain rfl := Option.some.inj hw
    simp only [Bool.and_eq_true] at hc
    obtain ⟨⟨ha, hf⟩, -⟩ := hc
    obtain ⟨hlevel, -, hab, -⟩ := of_walkAnswered ha
    rcases hlevel with hst | hst
    · exact hx.fault1 ha hst (by simpa [walkFails, hst] using hf) va hm
    · exact hx.fault0 ha hst (h.walk hst hab) (by simpa [walkFails, hst] using hf) va hm

/-- A held fault after the edge is the one held before, or the failed walk's. -/
theorem isMatch_next {f : HeldFault} {flush enable : Bool} {vaddr va : Word}
    {failed : Option Word} (hm : (f.next flush enable vaddr failed).isMatch va = true) :
    (∃ w, failed = some w ∧ w.extractLsb' 12 20 = va.extractLsb' 12 20) ∨
      (flush = false ∧ f.isMatch va = true) := by
  unfold HeldFault.next at hm
  cases failed with
  | some w =>
    simp only [HeldFault.isMatch, Bool.true_and, beq_iff_eq] at hm
    exact .inl ⟨w, rfl, hm⟩
  | none =>
    dsimp only at hm
    split at hm
    · exact absurd hm Bool.false_ne_true
    · rename_i hc
      simp only [Bool.or_eq_true, not_or, Bool.not_eq_true] at hc
      exact .inr ⟨hc.1.1, hm⟩

/-- **Step, a cycle with a flush.** Nothing that the MMU holds survives it. -/
theorem holds_of_flush (u : Sv32Mmu) (hf : x.flushTlb = true) :
    Holds Leaf' Fault' Pointer' (u.next x) := by
  have hna : walkAnswered u x = false := by simp [walkAnswered, hf]
  -- A flush drops what is held, and the walk of the cycle counts as aborted.
  have hfault : ∀ (f : HeldFault) enable vaddr side va,
      (f.next x.flushTlb enable vaddr (failedWalk u x side)).isMatch va = true → Fault' va := by
    intro f enable vaddr side va hm
    rcases isMatch_next hm with ⟨w, hw, -⟩ | ⟨hf', -⟩
    · rw [failedWalk, hna] at hw
      cases hw
    · exact absurd (hf'.symm.trans hf) Bool.false_ne_true
  constructor
  · intro i va hm
    have hentry : ((u.next x).tlb.entry i).valid = false := by
      change ((u.tlb.next tlbEntries x.flushTlb _ _ _ _).entry i).valid = false
      rw [Tlb.next, if_pos hf]
    rw [TlbEntry.matches, hentry, Bool.false_and] at hm
    exact absurd hm Bool.false_ne_true
  · intro va hm
    have hen : (nextFill u x).en = false := by
      rw [nextFill, hna]
      rfl
    exact absurd (hen.symm.trans (TlbFill.of_matches hm).1) Bool.false_ne_true
  · exact hfault _ _ _ _
  · exact hfault _ _ _ _
  · intro hs hab
    obtain ⟨-, -, haborted⟩ := nextWalk_level0 hs
    have hab : (nextWalk u x).aborted = false := hab
    rw [haborted, hf, Bool.or_true] at hab
    exact absurd hab.symm Bool.false_ne_true

/-- **Step, a cycle without a flush.** -/
theorem Holds.next (h : Holds Leaf Fault Pointer u) (hf : x.flushTlb = false)
    (hx : Finds u x Leaf Leaf' Fault Fault' Pointer Pointer') :
    Holds Leaf' Fault' Pointer' (u.next x) := by
  have hfault : ∀ f : HeldFault, (∀ va, f.isMatch va = true → Fault va) → ∀ enable vaddr side va,
      (f.next x.flushTlb enable vaddr (failedWalk u x side)).isMatch va = true → Fault' va := by
    intro f hfa enable vaddr side va hm
    rcases isMatch_next hm with ⟨w, hw, hpage⟩ | ⟨-, hold⟩
    · exact h.fault_of_failedWalk hx hw hpage
    · exact hx.fault (hfa va hold)
  constructor
  · intro i va
    change ((u.tlb.next tlbEntries x.flushTlb _ _ _ _).entry i).matches va = true →
      Leaf' va ((u.tlb.next tlbEntries x.flushTlb _ _ _ _).entry i).megapage
        ((u.tlb.next tlbEntries x.flushTlb _ _ _ _).entry i).pte
    rw [Tlb.next, hf, if_neg Bool.false_ne_true]
    split
    · rename_i hen
      dsimp only
      rw [Function.update_apply]
      split
      · -- The entry that is written is the registered fill.
        have hentry : u.fill.toEntry =
            ⟨true, u.fill.vaddr.extractLsb' 12 20, u.fill.megapage, u.fill.pte⟩ := by
          rw [TlbFill.toEntry, hen]
        rw [← hentry]
        exact fun hm => hx.leaf (h.fill va hm)
      · exact fun hm => hx.leaf (h.tlb i va hm)
    · exact fun hm => hx.leaf (h.tlb i va hm)
  · exact h.fill_next hx
  · exact hfault _ h.instrFault _ _ _
  · exact hfault _ h.dataFault _ _ _
  · intro hs hab
    obtain ⟨hcase, hvaddr, haborted⟩ := nextWalk_level0 hs
    change Pointer' (nextWalk u x).vaddr (nextWalk u x).level0Base
    have hab : (nextWalk u x).aborted = false := hab
    rw [haborted, Bool.or_eq_false_iff] at hab
    rw [hvaddr]
    rcases hcase with ⟨hold, hbase⟩ | ⟨ha, hfails, hp, hbase⟩
    · rw [hbase]
      exact hx.pointer (h.walk hold hab.1)
    · rw [hbase]
      simp only [walkFails, Bool.or_eq_false_iff, Bool.not_eq_false'] at hfails
      obtain ⟨⟨hu, -⟩, hlast⟩ := hfails
      obtain ⟨hlevel, -⟩ := of_walkAnswered ha
      rcases hlevel with hst | hst
      · exact hx.pointer1 ha hst hu hp
      · -- A pointer at the last level is a fault.
        simp [hp, hst] at hlast

/-! ## Runs -/

/-- The MMU before cycle `n`. -/
def run (ins : ℕ → MmuIn) (n : ℕ) : Sv32Mmu := Clocked.run next reset ins n

/-- One more cycle. -/
theorem run_succ (ins : ℕ → MmuIn) (n : ℕ) : run ins (n + 1) = (run ins n).next (ins n) := rfl

/-- The last-level table that a walk reads is one that a pointer gives. -/
theorem level0Base_run (ins : ℕ → MmuIn) (n : ℕ) (h : (run ins n).walk.state = .level0) :
    ∃ pte, (run ins n).walk.level0Base = tableBase pte := by
  induction n with
  | zero => cases h
  | succ n ih =>
    obtain ⟨⟨hold, hbase⟩ | ⟨-, -, -, hbase⟩, -, -⟩ := nextWalk_level0 h
    · obtain ⟨pte, hpte⟩ := ih hold
      exact ⟨pte, hbase.trans hpte⟩
    · exact ⟨_, hbase⟩

/-- A hit finds an entry that matches. -/
theorem tlb_found {t : Tlb} {entries : ℕ} {va : Word} (h : t.hit entries va = true) :
    ∃ i, (t.entry i).matches va = true ∧ t.pte entries va = (t.entry i).pte ∧
      t.megapage entries va = (t.entry i).megapage := by
  obtain ⟨-, hm⟩ := lastIndex_spec (anyIndex_iff.mp h)
  refine ⟨_, hm, ?_, ?_⟩
  · rw [Tlb.pte, if_pos h]
    rfl
  · rw [Tlb.megapage, h, Bool.true_and]
    rfl

end Sv32Mmu

end Synapse32
