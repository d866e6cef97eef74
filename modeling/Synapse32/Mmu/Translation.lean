import Synapse32.Mmu.Holds

/-! # The sequential walker computes the Sv32 translation

What the TLB, the registered fill, the held faults and a walk in progress hold, compared with the
combinational walker over the page tables in memory. -/

namespace Synapse32

/-! ## The reference translation -/

/-- The words of a page-table memory, by byte address; an unbacked address reads 0. -/
abbrev PageTable := Word → Word

/-- **The reference translation**: the combinational walker, given the level-1 word at
`root + 4 * VPN[1]` and the level-0 word at the address it points to plus `4 * VPN[0]`. -/
def PageTable.walk (m : PageTable) (root : Word) (translateEnable : Bool) (va : Word) :
    WalkResult :=
  let l1 := level1Addr root va
  let l0 := level0Addr (tableBase (m l1)) va
  sv32PageWalker translateEnable va ⟨l1, m l1, true⟩ ⟨l0, m l0, true⟩

namespace PageTable

variable {m : PageTable} {root va : Word}

/-- The level-1 word of an address. -/
def level1 (m : PageTable) (root va : Word) : Word := m (level1Addr root va)

/-- The level-0 word of an address. -/
def level0 (m : PageTable) (root va : Word) : Word :=
  m (level0Addr (tableBase (m.level1 root va)) va)

/-- The translation ends in leaf `pte`. -/
structure Leads (m : PageTable) (root va : Word) (megapage : Bool) (pte : Word) : Prop where
  valid : (m.walk root true va).addrValid = true
  addr : (m.walk root true va).physAddr = translatedAddr pte megapage va
  leaf : (m.walk root true va).leafPteValue = pte

/-- The translation faults. -/
def Faults (m : PageTable) (root va : Word) : Prop := (m.walk root true va).addrValid = false

/-- The level-1 word is a pointer to the table at `base`. -/
def Points (m : PageTable) (root va base : Word) : Prop :=
  pteUsable (m.level1 root va) = true ∧ pteIsLeaf (m.level1 root va) = false ∧
    base = tableBase (m.level1 root va)

/-- The walker's test of an entry is `pte_usable`. -/
theorem usable_eq (pte : Word) : (true && pte.getLsbD 0 && pte.extractLsb' 30 2 == 0#2 &&
    !(!pte.getLsbD 1 && pte.getLsbD 2)) = pteUsable pte := by
  rw [Bool.true_and]
  rfl

/-- The translation as a choice over the two words. -/
theorem walk_eq (m : PageTable) (root va : Word) :
    m.walk root true va =
      if pteUsable (m.level1 root va) then
        if pteIsLeaf (m.level1 root va) then
          if (m.level1 root va).extractLsb' 10 10 = 0#10 then
            ⟨translatedAddr (m.level1 root va) true va, true, level1Addr root va,
              m.level1 root va⟩
          else ⟨va, false, 0#32, 0#32⟩
        else if pteUsable (m.level0 root va) && pteIsLeaf (m.level0 root va) then
          ⟨translatedAddr (m.level0 root va) false va, true,
            level0Addr (tableBase (m.level1 root va)) va, m.level0 root va⟩
        else ⟨va, false, 0#32, 0#32⟩
      else ⟨va, false, 0#32, 0#32⟩ := by
  unfold walk sv32PageWalker
  simp only [usable_eq, if_true]
  rfl

/-- A level-1 leaf. -/
theorem leads_of_level1 (hu : pteUsable (m.level1 root va) = true)
    (hl : pteIsLeaf (m.level1 root va) = true)
    (ha : (m.level1 root va).extractLsb' 10 10 = 0#10) :
    m.Leads root va true (m.level1 root va) := by
  constructor <;> rw [walk_eq, if_pos hu, if_pos hl, if_pos ha]

/-- A level-0 leaf. -/
theorem leads_of_level0 (hu : pteUsable (m.level1 root va) = true)
    (hp : pteIsLeaf (m.level1 root va) = false) (hu0 : pteUsable (m.level0 root va) = true)
    (hl0 : pteIsLeaf (m.level0 root va) = true) : m.Leads root va false (m.level0 root va) := by
  constructor <;> rw [walk_eq, if_pos hu, hp, if_neg Bool.false_ne_true, hu0, hl0] <;> rfl

/-- A level-1 word that ends the walk in a fault. -/
theorem faults_of_level1 (h : pteUsable (m.level1 root va) = false ∨
    pteIsLeaf (m.level1 root va) = true ∧ (m.level1 root va).extractLsb' 10 10 ≠ 0#10) :
    (m.walk root true va).addrValid = false := by
  rw [walk_eq]
  rcases h with hu | ⟨hl, ha⟩
  · rw [hu]
    rfl
  · rw [hl, if_pos rfl, if_neg ha]
    split <;> rfl

/-- A level-0 word that ends the walk in a fault. -/
theorem faults_of_level0 (hp : pteIsLeaf (m.level1 root va) = false)
    (h : pteUsable (m.level0 root va) = false ∨ pteIsLeaf (m.level0 root va) = false) :
    (m.walk root true va).addrValid = false := by
  have hno : (pteUsable (m.level0 root va) && pteIsLeaf (m.level0 root va)) = false := by
    rw [Bool.and_eq_false_iff]
    exact h
  rw [walk_eq, hp, hno]
  split <;> rfl

end PageTable

/-! ## Pages -/

variable {m : PageTable} {root va va' : Word}

/-- Addresses of one megapage share the level-1 word. -/
theorem level1_of_vpn1 (h : va.extractLsb' 22 10 = va'.extractLsb' 22 10) :
    m.level1 root va = m.level1 root va' := by
  rw [PageTable.level1, PageTable.level1, level1Addr, level1Addr, h]

variable (m root) in
/-- Addresses of one page share both words. -/
theorem levels_of_page (h : va.extractLsb' 12 20 = va'.extractLsb' 12 20) :
    m.level1 root va = m.level1 root va' ∧ m.level0 root va = m.level0 root va' := by
  have h1 : m.level1 root va = m.level1 root va' :=
    level1_of_vpn1 (vpn_of_page h).1
  refine ⟨h1, ?_⟩
  rw [PageTable.level0, PageTable.level0, h1, level0Addr, level0Addr, (vpn_of_page h).2]

/-! ## The invariant -/

/-- A TLB entry stands for the translation of every address it matches. -/
def TlbEntry.Sound (m : PageTable) (root : Word) (e : TlbEntry) : Prop :=
  ∀ va, e.matches va = true → m.Leads root va e.megapage e.pte

/-- A held fault stands for the translation of every address of its page. -/
def HeldFault.Sound (m : PageTable) (root : Word) (f : HeldFault) : Prop :=
  ∀ va, f.isMatch va = true → (m.walk root true va).addrValid = false

namespace Sv32Mmu

/-- **Everything the MMU holds comes from the page tables at `root`.** A walk at the last level has
read the level-1 pointer of its address, unless a fence has overtaken it. -/
structure Sound (m : PageTable) (root : Word) (u : Sv32Mmu) : Prop where
  tlb : ∀ i, (u.tlb.entry i).Sound m root
  fill : u.fill.toEntry.Sound m root
  instrFault : u.instrFault.Sound m root
  dataFault : u.dataFault.Sound m root
  walk : u.walk.state = .level0 → u.walk.aborted = false →
    pteUsable (m.level1 root u.walk.vaddr) = true ∧
      pteIsLeaf (m.level1 root u.walk.vaddr) = false ∧
      u.walk.level0Base = tableBase (m.level1 root u.walk.vaddr)

variable {u : Sv32Mmu} {x : MmuIn} {m : PageTable} {root : Word}

/-- What is sound holds what the table says. -/
theorem Sound.holds (h : Sound m root u) : Holds (m.Leads root) (m.Faults root) (m.Points root) u :=
  ⟨h.tlb, h.fill, h.instrFault, h.dataFault, h.walk⟩

/-- What holds what the table says is sound. -/
theorem Holds.sound (h : Holds (m.Leads root) (m.Faults root) (m.Points root) u) :
    Sound m root u :=
  ⟨h.tlb, h.fill, h.instrFault, h.dataFault, h.walk⟩

/-- A walk finds what the reference translation finds. -/
theorem finds_of_answer (hr : walkAnswered u x = true → x.walkRdata = m (walkAddr u x)) :
    Finds u x (m.Leads (rootPtBase x.satp)) (m.Leads (rootPtBase x.satp))
      (m.Faults (rootPtBase x.satp)) (m.Faults (rootPtBase x.satp))
      (m.Points (rootPtBase x.satp)) (m.Points (rootPtBase x.satp)) := by
  -- What the walker reads is the table's entry, at either level.
  have hword1 : walkAnswered u x = true → u.walk.state = .level1 →
      x.walkRdata = m.level1 (rootPtBase x.satp) u.walk.vaddr := by
    intro ha hst
    rw [hr ha, walkAddr, if_pos hst]
    rfl
  have hword0 : walkAnswered u x = true → u.walk.state = .level0 →
      u.walk.level0Base = tableBase (m.level1 (rootPtBase x.satp) u.walk.vaddr) →
      x.walkRdata = m.level0 (rootPtBase x.satp) u.walk.vaddr := by
    intro ha hst hbase
    rw [hr ha, walkAddr, if_neg (by rw [hst]; decide), hbase]
    rfl
  refine ⟨id, id, id, ?_, ?_, ?_, ?_, ?_⟩
  · intro ha hst hu hl hz va hvpn
    rw [(hword1 ha hst).trans (level1_of_vpn1 hvpn)] at hu hl hz ⊢
    exact PageTable.leads_of_level1 hu hl hz
  · intro ha hst hbad va hpage
    rw [(hword1 ha hst).trans (levels_of_page m _ hpage).1] at hbad
    exact PageTable.faults_of_level1 hbad
  · intro ha hst hu hp
    rw [hword1 ha hst] at hu hp ⊢
    exact ⟨hu, hp, rfl⟩
  · rintro ha hst ⟨hu1, hp1, hbase⟩ hu hl va hpage
    obtain ⟨h1, h0⟩ := levels_of_page m (rootPtBase x.satp) hpage
    rw [(hword0 ha hst hbase).trans h0] at hu hl ⊢
    rw [h1] at hu1 hp1
    exact PageTable.leads_of_level0 hu1 hp1 hu hl
  · rintro ha hst ⟨-, hp1, hbase⟩ hbad va hpage
    obtain ⟨h1, h0⟩ := levels_of_page m (rootPtBase x.satp) hpage
    rw [(hword0 ha hst hbase).trans h0] at hbad
    rw [h1] at hp1
    exact PageTable.faults_of_level0 hp1 hbad

/-! ## Whole runs -/

/-- **What surrounds the MMU.** The root and the page tables change only with a flush, and a walk
that no flush has overtaken is answered with the word at its address. -/
structure Walkable (ins : ℕ → MmuIn) (mem : ℕ → PageTable) : Prop where
  unchanged : ∀ n, (ins n).flushTlb = false →
    mem (n + 1) = mem n ∧ rootPtBase (ins (n + 1)).satp = rootPtBase (ins n).satp
  answers : ∀ n, walkAnswered (run ins n) (ins n) = true →
    (ins n).walkRdata = mem n (walkAddr (run ins n) (ins n))

/-- **Run lemma.** The MMU is sound before every cycle. -/
theorem sound_run {ins : ℕ → MmuIn} {mem : ℕ → PageTable} (h : Walkable ins mem) (n : ℕ) :
    Sound (mem n) (rootPtBase (ins n).satp) (run ins n) := by
  induction n with
  | zero => exact holds_reset.sound
  | succ n ih =>
    rw [run_succ]
    cases hf : (ins n).flushTlb
    · obtain ⟨hmem, hroot⟩ := h.unchanged n hf
      rw [hmem, hroot]
      exact (ih.holds.next hf (finds_of_answer (h.answers n))).sound
    · exact (holds_of_flush _ hf).sound

/-- **One side's answer is the reference translation `r`**: a walk fault exactly where the reference
faults, and else its physical address; with translation on, also a hit exactly where the reference
finds a leaf, and that leaf. -/
structure Agrees (r : WalkResult) (enable hit fault : Bool) (physAddr pte : Word) : Prop where
  fault : (enable && fault) = !r.addrValid
  addr : r.addrValid = true → physAddr = r.physAddr
  hit : enable = true → hit = r.addrValid
  leaf : enable = true → r.addrValid = true → pte = r.leafPteValue

/-- A side that is ready agrees with the reference. -/
theorem agrees_of_ready {t : Tlb} {f : HeldFault} (ht : ∀ i, (t.entry i).Sound m root)
    (hf : f.Sound m root) {enable : Bool} {va : Word}
    (hready : (!enable || t.hit tlbEntries va || f.isMatch va) = true) :
    Agrees (m.walk root enable va) enable (t.hit tlbEntries va) (f.isMatch va)
      (if !enable then va
        else translatedAddr (t.pte tlbEntries va) (t.megapage tlbEntries va) va)
      (t.pte tlbEntries va) := by
  cases enable
  · exact ⟨rfl, fun _ => rfl, nofun, nofun⟩
  cases hh : t.hit tlbEntries va
  · have hm : f.isMatch va = true := by simpa [hh] using hready
    have hfault := hf va hm
    exact ⟨by rw [hm, hfault]; rfl, fun hv => absurd (hfault.symm.trans hv) Bool.false_ne_true,
      fun _ => hfault.symm, fun _ hv => absurd (hfault.symm.trans hv) Bool.false_ne_true⟩
  · obtain ⟨i, hm, hpte, hmega⟩ := tlb_found hh
    have hleads := ht i va hm
    rw [hpte, hmega]
    refine ⟨?_, fun _ => hleads.addr.symm, fun _ => hleads.valid.symm, fun _ _ => hleads.leaf.symm⟩
    -- A held fault of the same page would contradict the leaf.
    rw [hleads.valid, Bool.true_and]
    by_contra hfm
    have hfault := hf va (Bool.eq_true_of_not_eq_false hfm)
    exact Bool.false_ne_true (hfault.symm.trans hleads.valid)

/-- **The sequential walker with its TLB computes the reference translation.** In every run from
reset, whatever the order of the requests of the two sides: whenever a side is ready for an address,
its physical address, leaf and walk fault are those of the combinational walker over the page tables
of that cycle. -/
theorem run_agrees (ins : ℕ → MmuIn) (mem : ℕ → PageTable) (h : Walkable ins mem) (n : ℕ) :
    (instrReady (run ins n) (ins n) = true →
      Agrees ((mem n).walk (rootPtBase (ins n).satp) (ins n).instrTranslateEnable
          (ins n).instrVirtualAddr)
        (ins n).instrTranslateEnable (tlbInstrHit (run ins n) (ins n))
        (instrFaultMatch (run ins n) (ins n)) (instrPhysAddr (run ins n) (ins n))
        (tlbInstrPte (run ins n) (ins n))) ∧
    (dataReady (run ins n) (ins n) = true →
      Agrees ((mem n).walk (rootPtBase (ins n).satp) (ins n).dataTranslateEnable
          (ins n).dataVirtualAddr)
        (ins n).dataTranslateEnable (tlbDataHit (run ins n) (ins n))
        (dataFaultMatch (run ins n) (ins n)) (dataPhysAddr (run ins n) (ins n))
        (tlbDataPte (run ins n) (ins n))) := by
  have hsound := sound_run h n
  exact ⟨agrees_of_ready hsound.tlb hsound.instrFault, agrees_of_ready hsound.tlb hsound.dataFault⟩

/-- A fetch and a load of one page at once, translated by a two-level walk that is answered at
once. -/
def twoLevelWalk (n : ℕ) : MmuIn where
  flushTlb := false
  satp := 0x80080000#32
  dataSum := false
  dataMxr := false
  instrTranslateEnable := true
  instrVirtualAddr := 0x00401000#32
  instrPrivMode := privS
  dataTranslateEnable := true
  dataVirtualAddr := 0x00401ABC#32
  dataRdEn := true
  dataWrReq := false
  dataPrivMode := privS
  walkGnt := true
  walkRvalid := n == 1 || n == 2
  walkRdata := if n = 1 then 0x20000401#32 else 0x048D14CF#32

/-- The page tables of that walk: a pointer, and the leaf of `0x12345000`. -/
def twoLevelTable : PageTable := fun a =>
  if a = 0x80000004#32 then 0x20000401#32 else if a = 0x80001004#32 then 0x048D14CF#32 else 0#32

/-- Both sides hit behind the fill, with the reference's physical address. -/
theorem run_agrees_twoLevelWalk :
    instrReady (run twoLevelWalk 4) (twoLevelWalk 4) = true ∧
      dataReady (run twoLevelWalk 4) (twoLevelWalk 4) = true ∧
      dataPhysAddr (run twoLevelWalk 4) (twoLevelWalk 4) = 0x12345ABC#32 ∧
      Agrees (twoLevelTable.walk 0x80000000#32 true 0x00401ABC#32) true
        (tlbDataHit (run twoLevelWalk 4) (twoLevelWalk 4))
        (dataFaultMatch (run twoLevelWalk 4) (twoLevelWalk 4))
        (dataPhysAddr (run twoLevelWalk 4) (twoLevelWalk 4))
        (tlbDataPte (run twoLevelWalk 4) (twoLevelWalk 4)) := by
  have hready : dataReady (run twoLevelWalk 4) (twoLevelWalk 4) = true := by decide +kernel
  refine ⟨by decide +kernel, hready, by decide +kernel,
    (run_agrees twoLevelWalk (fun _ => twoLevelTable) ⟨fun _ _ => ⟨rfl, rfl⟩, ?_⟩ 4).2 hready⟩
  intro n ha
  have hn : n = 1 ∨ n = 2 := by
    have hv : (twoLevelWalk n).walkRvalid = true := by
      simp only [walkAnswered, Bool.and_eq_true] at ha
      exact ha.1.2
    simpa [twoLevelWalk] using hv
  rcases hn with rfl | rfl <;> decide +kernel

end Sv32Mmu

end Synapse32
