import Synapse32.Mmu.Holds

/-! # Where translations come from

The page-table words that the walker has read since the last flush, and what the TLB, the fill and
the held faults derive from them. The memory is left open: a word is what the walk port
delivered. -/

namespace Synapse32

namespace Sv32Mmu

/-- No flush in the cycles from `a` on and before `b`. -/
def NoFlush (ins : ℕ → MmuIn) (a b : ℕ) : Prop := ∀ k, a ≤ k → k < b → (ins k).flushTlb = false

/-- **A page-table word is read**: a walk request for it is granted in cycle `g` and answered in
cycle `t`. -/
structure WalkRead (ins : ℕ → MmuIn) (g t : ℕ) (addr word : Word) : Prop where
  le : g ≤ t
  request : walkReq (run ins g) = true
  granted : (ins g).walkGnt = true
  addr : walkAddr (run ins g) (ins g) = addr
  unanswered : ∀ k, g ≤ k → k < t → (ins k).walkRvalid = false
  answered : (ins t).walkRvalid = true
  word : (ins t).walkRdata = word

/-- **A leaf of `va` read since the last flush**: from `root` down, through a valid pointer if it is
of a page. -/
inductive LeafRead (ins : ℕ → MmuIn) (n : ℕ) (root va : Word) : Bool → Word → Prop
  | megapage {g t : ℕ} {pte : Word} (read : WalkRead ins g t (level1Addr root va) pte)
      (past : t < n) (since : NoFlush ins g n) (usable : pteUsable pte = true)
      (leaf : pteIsLeaf pte = true) (aligned : pte.extractLsb' 10 10 = 0#10) :
      LeafRead ins n root va true pte
  | page {g t g' t' : ℕ} {ptr pte : Word} (read1 : WalkRead ins g t (level1Addr root va) ptr)
      (since : NoFlush ins g n) (usable1 : pteUsable ptr = true) (pointer : pteIsLeaf ptr = false)
      (read : WalkRead ins g' t' (level0Addr (tableBase ptr) va) pte) (later : t < g')
      (past : t' < n) (usable : pteUsable pte = true) (leaf : pteIsLeaf pte = true) :
      LeafRead ins n root va false pte

/-- **A walk fault of `va` read since the last flush.** -/
inductive FaultRead (ins : ℕ → MmuIn) (n : ℕ) (root va : Word) : Prop
  | level1 {g t : ℕ} {pte : Word} (read : WalkRead ins g t (level1Addr root va) pte)
      (past : t < n) (since : NoFlush ins g n)
      (bad : pteUsable pte = false ∨ pteIsLeaf pte = true ∧ pte.extractLsb' 10 10 ≠ 0#10)
  | level0 {g t g' t' : ℕ} {ptr pte : Word} (read1 : WalkRead ins g t (level1Addr root va) ptr)
      (since : NoFlush ins g n) (usable1 : pteUsable ptr = true) (pointer : pteIsLeaf ptr = false)
      (read : WalkRead ins g' t' (level0Addr (tableBase ptr) va) pte) (later : t < g')
      (past : t' < n) (bad : pteUsable pte = false ∨ pteIsLeaf pte = false)

/-- The pointer to the last-level table at `base` has been read since the last flush. -/
def PointerRead (ins : ℕ → MmuIn) (n : ℕ) (root va base : Word) : Prop :=
  ∃ g t ptr, WalkRead ins g t (level1Addr root va) ptr ∧ t < n ∧ NoFlush ins g n ∧
    pteUsable ptr = true ∧ pteIsLeaf ptr = false ∧ base = tableBase ptr

/-- **What surrounds the MMU**: the root changes only with a flush, and an answer is to a granted
request. -/
structure WalkPort (ins : ℕ → MmuIn) : Prop where
  root : ∀ n, (ins n).flushTlb = false → (ins (n + 1)).satp = (ins n).satp
  answer : ∀ n, (ins n).walkRvalid = true → (run ins n).walk.state ≠ .idle →
    (run ins n).walk.accepted = true ∨ (walkReq (run ins n) = true ∧ (ins n).walkGnt = true)

variable {ins : ℕ → MmuIn} {n : ℕ} {root va va' base : Word}

/-! ## One more cycle without a flush -/

/-- A cycle more without a flush. -/
theorem NoFlush.succ {a : ℕ} (h : NoFlush ins a n) (hf : (ins n).flushTlb = false) :
    NoFlush ins a (n + 1) := by
  intro k hk hkn
  rcases Nat.lt_succ_iff_lt_or_eq.mp hkn with hlt | rfl
  · exact h k hk hlt
  · exact hf

/-- A leaf that was read stays so until a flush. -/
theorem LeafRead.succ {mega : Bool} {pte : Word} (h : LeafRead ins n root va mega pte)
    (hf : (ins n).flushTlb = false) : LeafRead ins (n + 1) root va mega pte := by
  cases h with
  | megapage read past since usable leaf aligned =>
    exact .megapage read (by omega) (since.succ hf) usable leaf aligned
  | page read1 since usable1 pointer read later past usable leaf =>
    exact .page read1 (since.succ hf) usable1 pointer read later (by omega) usable leaf

/-- A fault that was read stays so until a flush. -/
theorem FaultRead.succ (h : FaultRead ins n root va) (hf : (ins n).flushTlb = false) :
    FaultRead ins (n + 1) root va := by
  cases h with
  | level1 read past since bad => exact .level1 read (by omega) (since.succ hf) bad
  | level0 read1 since usable1 pointer read later past bad =>
    exact .level0 read1 (since.succ hf) usable1 pointer read later (by omega) bad

/-- A pointer that was read stays so until a flush. -/
theorem PointerRead.succ (h : PointerRead ins n root va base) (hf : (ins n).flushTlb = false) :
    PointerRead ins (n + 1) root va base := by
  obtain ⟨g, t, ptr, hread, ht, hg, hrest⟩ := h
  exact ⟨g, t, ptr, hread, by omega, hg.succ hf, hrest⟩

/-! ## The request that is out -/

/-- A walk that no fence has overtaken waits for the answer to a request of its own, granted since
the last flush. -/
def Pending (ins : ℕ → MmuIn) (n : ℕ) : Prop :=
  (run ins n).walk.state ≠ .idle → (run ins n).walk.aborted = false →
    (run ins n).walk.accepted = true →
    ∃ g < n, NoFlush ins g n ∧ walkReq (run ins g) = true ∧ (ins g).walkGnt = true ∧
      walkAddr (run ins g) (ins g) = walkAddr (run ins n) (ins n) ∧
      ∀ k, g ≤ k → k < n → (ins k).walkRvalid = false

/-- A walk that goes on waiting keeps its request. -/
theorem nextWalk_of_wait {u : Sv32Mmu} {x : MmuIn} (hs : u.walk.state ≠ .idle)
    (hv : x.walkRvalid = false) : nextWalk u x =
      { u.walk with
        aborted := u.walk.aborted || x.flushTlb
        accepted := u.walk.accepted || x.walkGnt } := by
  unfold nextWalk
  split
  · exact absurd ‹_› hs
  · rw [hv]
    rfl

/-- No request is out after an answer, or where no walk is under way. -/
theorem nextWalk_accepted {u : Sv32Mmu} {x : MmuIn} (h : (nextWalk u x).accepted = true) :
    u.walk.state ≠ .idle ∧ x.walkRvalid = false := by
  unfold nextWalk at h
  split at h
  · dsimp only at h
    split at h
    · exact absurd h Bool.false_ne_true
    · split at h <;> exact absurd h Bool.false_ne_true
  · rename_i hs
    refine ⟨hs, ?_⟩
    by_contra hv
    have hv := Bool.eq_true_of_not_eq_false hv
    rw [hv] at h
    dsimp only at h
    rw [Bool.not_true, if_neg Bool.false_ne_true] at h
    split at h <;> exact absurd h Bool.false_ne_true

/-- **Run lemma.** The walk waits for the read it was granted. -/
theorem pending_run (hp : WalkPort ins) (n : ℕ) : Pending ins n := by
  induction n with
  | zero => exact fun _ _ h => absurd h Bool.false_ne_true
  | succ n ih =>
    intro hs hab hacc
    have hnext : (run ins (n + 1)).walk = nextWalk (run ins n) (ins n) := rfl
    rw [hnext] at hs hab hacc
    obtain ⟨hs0, hv⟩ := nextWalk_accepted hacc
    have hwalk := nextWalk_of_wait hs0 hv
    rw [hwalk, Bool.or_eq_false_iff] at hab
    rw [hwalk] at hacc
    -- The request stands, and so does the root.
    have haddr : walkAddr (run ins (n + 1)) (ins (n + 1)) = walkAddr (run ins n) (ins n) := by
      rw [walkAddr, walkAddr, hnext, hwalk, hp.root n hab.2]
    rw [haddr]
    cases ha : (run ins n).walk.accepted
    · have hg : (ins n).walkGnt = true := by
        rw [ha, Bool.false_or] at hacc
        exact hacc
      have hreq : walkReq (run ins n) = true := by
        rw [walkReq, ha, Bool.and_eq_true, bne_iff_ne]
        exact ⟨hs0, rfl⟩
      refine ⟨n, by omega, fun k hk hkn => ?_, hreq, hg, rfl, fun k hk hkn => ?_⟩
      · obtain rfl : k = n := by omega
        exact hab.2
      · obtain rfl : k = n := by omega
        exact hv
    · obtain ⟨g, hgn, hflush, hreq, hg, haddr', hun⟩ := ih hs0 hab.1 ha
      refine ⟨g, by omega, hflush.succ hab.2, hreq, hg, haddr', fun k hk hkn => ?_⟩
      rcases Nat.lt_succ_iff_lt_or_eq.mp hkn with hlt | rfl
      · exact hun k hk hlt
      · exact hv

/-- **An answer that a walk takes** is to a request granted since the last flush. -/
theorem exists_walkRead (hp : WalkPort ins) (ha : walkAnswered (run ins n) (ins n) = true) :
    ∃ g, WalkRead ins g n (walkAddr (run ins n) (ins n)) (ins n).walkRdata ∧
      NoFlush ins g (n + 1) := by
  obtain ⟨hlevel, hv, hab, hf⟩ := of_walkAnswered ha
  have hs : (run ins n).walk.state ≠ .idle := by
    rcases hlevel with h | h <;> rw [h] <;> decide
  rcases hp.answer n hv hs with hacc | ⟨hreq, hg⟩
  · obtain ⟨g, hgn, hflush, hreq, hg, haddr, hun⟩ := pending_run hp n hs hab hacc
    exact ⟨g, ⟨by omega, hreq, hg, haddr, hun, hv, rfl⟩, hflush.succ hf⟩
  · refine ⟨n, ⟨le_rfl, hreq, hg, rfl, fun k hk hkn => by omega, hv, rfl⟩, fun k hk hkn => ?_⟩
    obtain rfl : k = n := by omega
    exact hf

/-! ## What the MMU holds has been read -/

/-- A level-0 request is granted behind the answer to the level-1 request. -/
theorem WalkRead.later {g t g' : ℕ} {addr addr' word word' : Word}
    (h : WalkRead ins g t addr word) (h' : WalkRead ins g' n addr' word') (ht : t < n) :
    t < g' := by
  by_contra hle
  have := h'.unanswered t (by omega) ht
  exact Bool.false_ne_true (this.symm.trans h.answered)

/-- What an answer finds has been read since the last flush. -/
theorem finds_of_read (hp : WalkPort ins) (hf : (ins n).flushTlb = false)
    (hroot : root = rootPtBase (ins n).satp) :
    Finds (run ins n) (ins n) (LeafRead ins n root) (LeafRead ins (n + 1) root)
      (FaultRead ins n root) (FaultRead ins (n + 1) root)
      (PointerRead ins n root) (PointerRead ins (n + 1) root) := by
  -- What the walker reads at either level is an entry at the address it asks for.
  have hread1 : walkAnswered (run ins n) (ins n) = true → (run ins n).walk.state = .level1 →
      ∃ g, WalkRead ins g n (level1Addr root (run ins n).walk.vaddr) (ins n).walkRdata ∧
        NoFlush ins g (n + 1) := by
    intro ha hst
    obtain ⟨g, hread, hflush⟩ := exists_walkRead hp ha
    rw [walkAddr, if_pos hst, ← hroot] at hread
    exact ⟨g, hread, hflush⟩
  have hread0 : walkAnswered (run ins n) (ins n) = true → (run ins n).walk.state = .level0 →
      ∃ g, WalkRead ins g n (level0Addr (run ins n).walk.level0Base (run ins n).walk.vaddr)
        (ins n).walkRdata := by
    intro ha hst
    obtain ⟨g, hread, -⟩ := exists_walkRead hp ha
    rw [walkAddr, if_neg (by rw [hst]; decide)] at hread
    exact ⟨g, hread⟩
  -- The address depends only on the part of the page number for that level.
  have hlevel1 : ∀ {va va' : Word}, va.extractLsb' 22 10 = va'.extractLsb' 22 10 →
      level1Addr root va = level1Addr root va' := by
    intro va va' h
    rw [level1Addr, level1Addr, h]
  have hlevel0 : ∀ {va va' base : Word}, va.extractLsb' 12 10 = va'.extractLsb' 12 10 →
      level0Addr base va = level0Addr base va' := by
    intro va va' base h
    rw [level0Addr, level0Addr, h]
  refine ⟨fun h => h.succ hf, fun h => h.succ hf, fun h => h.succ hf, ?_, ?_, ?_, ?_, ?_⟩
  · intro ha hst hu hl hz va hvpn
    obtain ⟨g, hread, hflush⟩ := hread1 ha hst
    rw [hlevel1 hvpn] at hread
    exact .megapage hread (by omega) hflush hu hl hz
  · intro ha hst hbad va hpage
    obtain ⟨g, hread, hflush⟩ := hread1 ha hst
    rw [hlevel1 (vpn_of_page hpage).1] at hread
    exact .level1 hread (by omega) hflush hbad
  · intro ha hst hu hp'
    obtain ⟨g, hread, hflush⟩ := hread1 ha hst
    exact ⟨g, n, _, hread, by omega, hflush, hu, hp', rfl⟩
  · rintro ha hst ⟨g, t, ptr, hptr, ht, hflush, hu1, hp1, hbase⟩ hu hl va hpage
    obtain ⟨g', hread⟩ := hread0 ha hst
    have hlater := hptr.later hread ht
    rw [hlevel1 (vpn_of_page hpage).1] at hptr
    rw [hbase, hlevel0 (vpn_of_page hpage).2] at hread
    exact .page hptr (hflush.succ hf) hu1 hp1 hread hlater (by omega) hu hl
  · rintro ha hst ⟨g, t, ptr, hptr, ht, hflush, hu1, hp1, hbase⟩ hbad va hpage
    obtain ⟨g', hread⟩ := hread0 ha hst
    have hlater := hptr.later hread ht
    rw [hlevel1 (vpn_of_page hpage).1] at hptr
    rw [hbase, hlevel0 (vpn_of_page hpage).2] at hread
    exact .level0 hptr (hflush.succ hf) hu1 hp1 hread hlater (by omega) hbad

/-- **All that the MMU holds has been read since the last flush**, from the root of the cycle. -/
theorem holds_run (hp : WalkPort ins) (n : ℕ) :
    Holds (LeafRead ins n (rootPtBase (ins n).satp)) (FaultRead ins n (rootPtBase (ins n).satp))
      (PointerRead ins n (rootPtBase (ins n).satp)) (run ins n) := by
  induction n with
  | zero => exact holds_reset
  | succ n ih =>
    rw [run_succ]
    cases hf : (ins n).flushTlb
    · rw [hp.root n hf]
      exact ih.next hf (finds_of_read hp hf rfl)
    · exact holds_of_flush _ hf

/-- **A hit is a leaf** read since the last flush. -/
theorem leafRead_of_hit (hp : WalkPort ins) {va : Word}
    (hh : (run ins n).tlb.hit tlbEntries va = true) :
    LeafRead ins n (rootPtBase (ins n).satp) va ((run ins n).tlb.megapage tlbEntries va)
      ((run ins n).tlb.pte tlbEntries va) := by
  obtain ⟨i, hm, hpte, hmega⟩ := tlb_found hh
  rw [hpte, hmega]
  exact (holds_run hp n).tlb i va hm

/-- The leaf is valid, and its page is below 4 GB. -/
theorem LeafRead.usable {mega : Bool} {pte : Word} (h : LeafRead ins n root va mega pte) :
    pteUsable pte = true := by
  cases h with
  | megapage _ _ _ usable => exact usable
  | page _ _ _ _ _ _ _ usable => exact usable

/-! ## What the words of a walk show -/

/-- **A leaf of `va`** from `root` down, where `R` says which words page-table addresses read as. -/
inductive LeafOf (R : Word → Word → Prop) (root va : Word) : Bool → Word → Prop
  | megapage {pte : Word} (read : R (level1Addr root va) pte) (usable : pteUsable pte = true)
      (leaf : pteIsLeaf pte = true) (aligned : pte.extractLsb' 10 10 = 0#10) :
      LeafOf R root va true pte
  | page {ptr pte : Word} (read1 : R (level1Addr root va) ptr) (usable1 : pteUsable ptr = true)
      (pointer : pteIsLeaf ptr = false) (read : R (level0Addr (tableBase ptr) va) pte)
      (usable : pteUsable pte = true) (leaf : pteIsLeaf pte = true) : LeafOf R root va false pte

/-- **A walk fault of `va`** from `root` down. -/
inductive FaultOf (R : Word → Word → Prop) (root va : Word) : Prop
  | level1 {pte : Word} (read : R (level1Addr root va) pte)
      (bad : pteUsable pte = false ∨ pteIsLeaf pte = true ∧ pte.extractLsb' 10 10 ≠ 0#10)
  | level0 {ptr pte : Word} (read1 : R (level1Addr root va) ptr) (usable1 : pteUsable ptr = true)
      (pointer : pteIsLeaf ptr = false) (read : R (level0Addr (tableBase ptr) va) pte)
      (bad : pteUsable pte = false ∨ pteIsLeaf pte = false)

/-- Behind a request without a flush come requests without a flush. -/
theorem NoFlush.later {g g' : ℕ} (h : NoFlush ins g n) (hg : g ≤ g') : NoFlush ins g' n :=
  fun k hk hkn => h k (by omega) hkn

variable {R : Word → Word → Prop}

/-- A leaf that was read is one of the table that the reads come from. -/
theorem LeafRead.leafOf {mega : Bool} {pte : Word} (h : LeafRead ins n root va mega pte)
    (hR : ∀ {g t a w}, WalkRead ins g t a w → t < n → NoFlush ins g n → R a w) :
    LeafOf R root va mega pte := by
  cases h with
  | megapage read past since usable leaf aligned =>
    exact .megapage (hR read past since) usable leaf aligned
  | page read1 since usable1 pointer read later past usable leaf =>
    have hle1 := read1.le
    have hle := read.le
    exact .page (hR read1 (by omega) since) usable1 pointer
      (hR read past (since.later (by omega))) usable leaf

/-- A fault that was read is one of the table that the reads come from. -/
theorem FaultRead.faultOf (h : FaultRead ins n root va)
    (hR : ∀ {g t a w}, WalkRead ins g t a w → t < n → NoFlush ins g n → R a w) :
    FaultOf R root va := by
  cases h with
  | level1 read past since bad => exact .level1 (hR read past since) bad
  | level0 read1 since usable1 pointer read later past bad =>
    have hle1 := read1.le
    have hle := read.le
    exact .level0 (hR read1 (by omega) since) usable1 pointer
      (hR read past (since.later (by omega))) bad

end Sv32Mmu

end Synapse32
