import Synapse32.Lib.RecentRing
import Synapse32.Mmu.Derivation

/-! # What the TLB contains

The TLB is a ring that holds the last fills since a flush. Driven by the walker, which starts no
walk for an address that is held or about to be, it holds no page twice. -/

namespace Synapse32

/-! ## The last fills -/

/-- The pages that a fill translates: those of its megapage, or its own. -/
def TlbFill.Covers (f : TlbFill) (va : Word) : Prop :=
  if f.megapage then f.vaddr.extractLsb' 22 10 = va.extractLsb' 22 10
  else f.vaddr.extractLsb' 12 20 = va.extractLsb' 12 20

/-- An entry matches the addresses that its fill covers. -/
theorem TlbFill.matches_toEntry {f : TlbFill} (hen : f.en = true) (va : Word) :
    f.toEntry.matches va = true ↔ f.Covers va := by
  have hvpn : (f.vaddr.extractLsb' 12 20).extractLsb' 10 10 = f.vaddr.extractLsb' 22 10 :=
    (extract_page f.vaddr (by decide)).symm
  unfold TlbEntry.matches toEntry Covers
  dsimp only
  rw [hen, hvpn]
  cases f.megapage <;> simp

namespace Tlb

/-- What `sv32_tlb.v` reads at a clock edge. -/
structure Update where
  flush : Bool
  fill : TlbFill

/-- The clock edge on an update. -/
def edge (entries : ℕ) (t : Tlb) (i : Update) : Tlb :=
  t.next entries i.flush i.fill.en i.fill.vaddr i.fill.pte i.fill.megapage

/-- The fills since the most recent flush, the newest in front; one in the cycle of a flush is
dropped. -/
def fills (ins : ℕ → Update) : ℕ → List TlbFill
  | 0 => []
  | n + 1 =>
    if (ins n).flush then []
    else if (ins n).fill.en then (ins n).fill :: fills ins n
    else fills ins n

variable {entries : ℕ} {t : Tlb} {ins : ℕ → Update} {n : ℕ}

/-- The index is wide enough for the entries. -/
theorem le_indexWidth (h64 : entries ≤ 64) :
    entries ≤ 2 ^ indexWidth entries := by
  unfold indexWidth
  split_ifs <;> omega

/-- The replacement pointer after a fill, for any number of entries. -/
theorem nextVictim_eq (h1 : 1 ≤ entries) (h64 : entries ≤ 64) (hp : t.nextVictim < entries) :
    (if t.nextVictim = (entries - 1) % 2 ^ indexWidth entries then 0
      else (t.nextVictim + 1) % 2 ^ indexWidth entries) =
      if t.nextVictim = entries - 1 then 0 else t.nextVictim + 1 := by
  have hle := le_indexWidth h64
  rw [Nat.mod_eq_of_lt (show entries - 1 < 2 ^ indexWidth entries by omega)]
  by_cases hlast : t.nextVictim = entries - 1
  · rw [if_pos hlast, if_pos hlast]
  · rw [if_neg hlast, if_neg hlast, Nat.mod_eq_of_lt (by omega)]

/-- The registers are the ring of the last fills. -/
structure Ring (entries : ℕ) (log : List TlbFill) (t : Tlb) : Prop where
  victim : t.nextVictim < entries
  holds : RecentRing.HoldsLast (fun e : TlbEntry => e.valid = false) entries t.nextVictim t.entry
    (log.map TlbFill.toEntry)

/-- After reset the TLB holds no fill. -/
theorem ring_reset (h1 : 1 ≤ entries) : Ring entries [] reset :=
  ⟨h1, RecentRing.holdsLast_nil h1 fun _ _ => rfl⟩

/-- A flush empties the ring and leaves the pointer where it is. -/
theorem Ring.flush {log : List TlbFill} (h : Ring entries log t) {i : Update}
    (hf : i.flush = true) : Ring entries [] (edge entries t i) := by
  have hedge : edge entries t i = { t with entry := fun j => { t.entry j with valid := false } } :=
    if_pos hf
  have hpos : 0 < entries := lt_of_le_of_lt (Nat.zero_le _) h.victim
  rw [hedge]
  exact ⟨h.victim, RecentRing.holdsLast_nil hpos fun _ _ => rfl⟩

/-- A fill is written over the oldest. -/
theorem Ring.fill {log : List TlbFill} (h : Ring entries log t) (h1 : 1 ≤ entries)
    (h64 : entries ≤ 64) {i : Update} (hf : i.flush = false) (hen : i.fill.en = true) :
    Ring entries (i.fill :: log) (edge entries t i) := by
  have hentry : i.fill.toEntry =
      ⟨true, i.fill.vaddr.extractLsb' 12 20, i.fill.megapage, i.fill.pte⟩ := by
    rw [TlbFill.toEntry, hen]
  have hedge : edge entries t i =
      ⟨Function.update t.entry t.nextVictim i.fill.toEntry,
        if t.nextVictim = entries - 1 then 0 else t.nextVictim + 1⟩ := by
    rw [edge, next, hf, if_neg Bool.false_ne_true, if_pos hen, nextVictim_eq h1 h64 h.victim,
      hentry]
  have hvictim := h.victim
  rw [hedge]
  constructor
  · show (if t.nextVictim = entries - 1 then 0 else t.nextVictim + 1) < entries
    split_ifs <;> omega
  · exact h.holds.write h.victim i.fill.toEntry

/-- **Run lemma.** The registers are the ring of the last fills before every cycle. -/
theorem ring_run (h1 : 1 ≤ entries) (h64 : entries ≤ 64) (ins : ℕ → Update) (n : ℕ) :
    Ring entries (fills ins n) (Clocked.run (edge entries) reset ins n) := by
  induction n with
  | zero => exact ring_reset h1
  | succ n ih =>
    rw [fills, Clocked.run_succ]
    cases hf : (ins n).flush
    · rw [if_neg Bool.false_ne_true]
      cases hen : (ins n).fill.en
      · have hidle : edge entries (Clocked.run (edge entries) reset ins n) (ins n) =
            Clocked.run (edge entries) reset ins n := by
          rw [edge, next, hf, hen]
          rfl
        rw [if_neg Bool.false_ne_true, hidle]
        exact ih
      · rw [if_pos rfl]
        exact ih.fill h1 h64 hf hen
    · rw [if_pos rfl]
      exact ih.flush hf

/-- A fill is one that is enabled. -/
theorem en_of_mem_fills {f : TlbFill} (h : f ∈ fills ins n) : f.en = true := by
  induction n with
  | zero => simp [fills] at h
  | succ n ih =>
    rw [fills] at h
    split at h
    · simp at h
    · split at h
      · rename_i hen
        rcases List.mem_cons.mp h with rfl | hold
        · exact hen
        · exact ih hold
      · exact ih h

/-- A lookup hits where one of the last fills covers the address, and returns such a fill. -/
structure LooksUp (entries : ℕ) (recent : List TlbFill) (t : Tlb) (va : Word) : Prop where
  hit : t.hit entries va = true ↔ ∃ f ∈ recent, f.Covers va
  answer : t.hit entries va = true →
    ∃ f ∈ recent, f.Covers va ∧ t.pte entries va = f.pte ∧ t.megapage entries va = f.megapage

/-- **The TLB holds the last fills** since the most recent flush. -/
theorem looksUp_run (h1 : 1 ≤ entries) (h64 : entries ≤ 64) (ins : ℕ → Update) (n : ℕ)
    (va : Word) :
    LooksUp entries ((fills ins n).take entries) (Clocked.run (edge entries) reset ins n) va := by
  have hring := ring_run h1 h64 ins n
  set t := Clocked.run (edge entries) reset ins n
  -- what some entry shows that matches, some recent fill shows that covers
  have hshow : ∀ q : TlbEntry → Prop,
      (∃ j < entries, (t.entry j).matches va = true ∧ q (t.entry j)) ↔
        ∃ f ∈ (fills ins n).take entries, f.Covers va ∧ q f.toEntry := by
    intro q
    have hblank : ∀ e : TlbEntry, e.valid = false → ¬ (e.matches va = true ∧ q e) := by
      rintro e hv ⟨hm, -⟩
      rw [TlbEntry.matches, hv, Bool.false_and] at hm
      exact Bool.false_ne_true hm
    rw [hring.holds.exists_iff hring.victim hblank, ← List.map_take]
    constructor
    · rintro ⟨e, he, hm, hqe⟩
      obtain ⟨f, hf, rfl⟩ := List.mem_map.mp he
      have hen := en_of_mem_fills (List.mem_of_mem_take hf)
      exact ⟨f, hf, (TlbFill.matches_toEntry hen va).mp hm, hqe⟩
    · rintro ⟨f, hf, hc, hqf⟩
      have hen := en_of_mem_fills (List.mem_of_mem_take hf)
      exact ⟨f.toEntry, List.mem_map_of_mem hf, (TlbFill.matches_toEntry hen va).mpr hc, hqf⟩
  constructor
  · rw [hit, anyIndex_iff]
    simpa using hshow fun _ => True
  · intro hh
    obtain ⟨hlt, hm⟩ := lastIndex_spec (anyIndex_iff.mp hh)
    obtain ⟨f, hf, hc, hpte, hmega⟩ := (hshow fun e =>
      t.pte entries va = e.pte ∧ t.megapage entries va = e.megapage).mp
        ⟨_, hlt, hm, by rw [pte, if_pos hh]; rfl, by rw [megapage, hh, Bool.true_and]; rfl⟩
    exact ⟨f, hf, hc, hpte, hmega⟩

end Tlb

/-! ## Driven by the walker -/

/-- Both entries are valid, of one size, and for the same page. -/
structure TlbEntry.SamePage (e e' : TlbEntry) : Prop where
  valid : e.valid = true
  valid' : e'.valid = true
  size : e.megapage = e'.megapage
  page : e.megapage = false → e.tag = e'.tag
  vpn : e.megapage = true → e.tag.extractLsb' 10 10 = e'.tag.extractLsb' 10 10

/-- An entry for the page of a fill matches the address of the fill. -/
theorem TlbEntry.SamePage.matches_fill {e : TlbEntry} {f : TlbFill}
    (h : e.SamePage f.toEntry) : e.matches f.vaddr = true := by
  have hvpn : (f.vaddr.extractLsb' 12 20).extractLsb' 10 10 = f.vaddr.extractLsb' 22 10 :=
    (extract_page f.vaddr (by decide)).symm
  rw [TlbEntry.matches, h.valid, Bool.true_and]
  cases hm : e.megapage
  · simpa [TlbFill.toEntry] using h.page hm
  · have htag := h.vpn hm
    rw [TlbFill.toEntry] at htag
    rw [if_pos rfl, htag, hvpn, beq_self_eq_true]

/-- `SamePage` is symmetric. -/
theorem TlbEntry.SamePage.symm {e e' : TlbEntry} (h : e.SamePage e') : e'.SamePage e :=
  ⟨h.valid', h.valid, h.size.symm, fun hm => (h.page (h.size.trans hm)).symm,
    fun hm => (h.vpn (h.size.trans hm)).symm⟩

/-- Two entries of one size that match an address are for the same page. -/
theorem TlbEntry.samePage_of_matches {e e' : TlbEntry} {va : Word} (h : e.matches va = true)
    (h' : e'.matches va = true) (hsize : e.megapage = e'.megapage) : e.SamePage e' := by
  rw [TlbEntry.matches, Bool.and_eq_true] at h h'
  refine ⟨h.1, h'.1, hsize, fun hm => ?_, fun hm => ?_⟩
  · have h2 := h.2
    have h2' := h'.2
    rw [hm, if_neg Bool.false_ne_true, beq_iff_eq] at h2
    rw [← hsize, hm, if_neg Bool.false_ne_true, beq_iff_eq] at h2'
    exact h2.trans h2'.symm
  · have h2 := h.2
    have h2' := h'.2
    rw [hm, if_pos rfl, beq_iff_eq] at h2
    rw [← hsize, hm, if_pos rfl, beq_iff_eq] at h2'
    exact h2.trans h2'.symm

namespace Sv32Mmu

variable {u : Sv32Mmu} {x : MmuIn} {ins : ℕ → MmuIn} {n : ℕ}

/-- No entry matches the address. -/
def Misses (t : Tlb) (va : Word) : Prop := ∀ i < tlbEntries, (t.entry i).matches va = false

/-- A lookup that does not hit misses. -/
theorem misses_of_hit {t : Tlb} {va : Word} (h : t.hit tlbEntries va = false) : Misses t va := by
  intro i hi
  by_contra hm
  have hhit : t.hit tlbEntries va = true := anyIndex_iff.mpr ⟨i, hi, by simpa using hm⟩
  exact Bool.false_ne_true (h.symm.trans hhit)

/-- **No page twice**: a walk under way is for an address that no entry matches, with no fill on its
way; so is a fill; and no two entries are for the same page. -/
structure Distinct (u : Sv32Mmu) : Prop where
  walk : u.walk.state ≠ .idle → u.fill.en = false ∧ Misses u.tlb u.walk.vaddr
  fill : u.fill.en = true → Misses u.tlb u.fill.vaddr
  pages : ∀ i < tlbEntries, ∀ j < tlbEntries, i ≠ j →
    ¬ (u.tlb.entry i).SamePage (u.tlb.entry j)

/-- Without a fill an edge adds nothing to the TLB. -/
theorem Misses.next {va : Word} (h : Misses u.tlb va) (hen : u.fill.en = false) :
    Misses (u.next x).tlb va := by
  intro i hi
  show ((u.tlb.next tlbEntries x.flushTlb u.fill.en _ _ _).entry i).matches va = false
  rw [hen, Tlb.next]
  cases x.flushTlb
  · rw [if_neg Bool.false_ne_true, if_neg Bool.false_ne_true]
    exact h i hi
  · rw [if_pos rfl]
    exact Bool.false_and _

/-- A walk is started by a miss, while no fill is being written. -/
theorem misses_of_starts (hs : u.walk.state = .idle) (h : (nextWalk u x).state ≠ .idle) :
    u.fill.en = false ∧ Misses u.tlb (nextWalk u x).vaddr := by
  unfold nextWalk at h ⊢
  rw [hs] at h ⊢
  dsimp only at h ⊢
  -- The data port's address goes before the fetch port's.
  by_cases hd : dataWalkNeeded u x = true
  · rw [if_pos hd]
    simp only [dataWalkNeeded, Bool.and_eq_true, Bool.not_eq_true'] at hd
    exact ⟨hd.2, misses_of_hit hd.1.1.2⟩
  · rw [if_neg hd] at h ⊢
    by_cases hi : instrWalkNeeded u x = true
    · rw [if_pos hi]
      simp only [instrWalkNeeded, Bool.and_eq_true, Bool.not_eq_true'] at hi
      exact ⟨hi.2, misses_of_hit hi.1.1.2⟩
    · rw [if_neg hi] at h
      exact absurd hs h

/-- A walk that goes on keeps its address and has not found a leaf. -/
theorem walk_goes_on (hs : u.walk.state ≠ .idle) (h : (nextWalk u x).state ≠ .idle) :
    (nextWalk u x).vaddr = u.walk.vaddr ∧
      (walkAnswered u x && !walkFails u x && pteIsLeaf x.walkRdata) = false := by
  cases hw : u.walk.state
  case idle => exact absurd hw hs
  all_goals
    unfold nextWalk at h ⊢
    rw [hw] at h ⊢
    dsimp only at h ⊢
    by_cases hv : x.walkRvalid = true
    · -- An answer lets it go on only with a pointer to the next level.
      rw [hv, Bool.not_true, if_neg Bool.false_ne_true] at h ⊢
      by_cases hp : (walkAnswered u x && !walkFails u x && !pteIsLeaf x.walkRdata) = true
      · rw [if_pos hp]
        simp only [Bool.and_eq_true, Bool.not_eq_true'] at hp
        exact ⟨rfl, by rw [hp.2, Bool.and_false]⟩
      · rw [if_neg hp] at h
        exact absurd rfl h
    · have hna : walkAnswered u x = false := by
        rw [walkAnswered, Bool.eq_false_iff.mpr hv, Bool.and_false, Bool.false_and]
      rw [Bool.eq_false_iff.mpr hv, Bool.not_false, if_pos rfl, hna]
      exact ⟨rfl, rfl⟩

/-- A fill is registered by a walk that was under way. -/
theorem nextFill_origin (h : (nextFill u x).en = true) :
    u.walk.state ≠ .idle ∧ (nextFill u x).vaddr = u.walk.vaddr := by
  unfold nextFill at h ⊢
  split at h
  · rename_i hc
    rw [if_pos hc]
    simp only [Bool.and_eq_true] at hc
    obtain ⟨hlevel, -⟩ := of_walkAnswered hc.1.1
    refine ⟨?_, rfl⟩
    rcases hlevel with hs | hs <;> rw [hs] <;> exact nofun
  · exact absurd h Bool.false_ne_true

/-- **Step.** The entries stay distinct. -/
theorem Distinct.next (h : Distinct u) (x : MmuIn) : Distinct (u.next x) where
  walk := by
    intro hs
    by_cases hidle : u.walk.state = .idle
    · obtain ⟨hen, hmiss⟩ := misses_of_starts hidle hs
      refine ⟨?_, hmiss.next hen⟩
      show (nextFill u x).en = false
      have hna : walkAnswered u x = false := by
        rw [walkAnswered, hidle]
        rfl
      rw [nextFill, hna]
      rfl
    · obtain ⟨hva, hleaf⟩ := walk_goes_on hidle hs
      obtain ⟨hen, hmiss⟩ := h.walk hidle
      refine ⟨?_, ?_⟩
      · show (nextFill u x).en = false
        rw [nextFill, if_neg (by rw [hleaf]; exact Bool.false_ne_true)]
      · show Misses (u.next x).tlb (nextWalk u x).vaddr
        rw [hva]
        exact hmiss.next hen
  fill := by
    intro hen
    obtain ⟨hwalk, hva⟩ := nextFill_origin hen
    obtain ⟨hno, hmiss⟩ := h.walk hwalk
    show Misses (u.next x).tlb (nextFill u x).vaddr
    rw [hva]
    exact hmiss.next hno
  pages := by
    intro i hi j hj hij
    show ¬ TlbEntry.SamePage ((u.tlb.next _ _ _ _ _ _).entry i) ((u.tlb.next _ _ _ _ _ _).entry j)
    rw [Tlb.next]
    split
    · rintro ⟨hv, -⟩
      exact Bool.false_ne_true hv
    · split
      · rename_i hen
        -- the entry that is written is for a page that no other entry has
        have hentry : (⟨true, u.fill.vaddr.extractLsb' 12 20, u.fill.megapage, u.fill.pte⟩ :
            TlbEntry) = u.fill.toEntry := by
          rw [TlbFill.toEntry, hen]
        have hmiss := h.fill hen
        have hnew : ∀ k < tlbEntries, ¬ (u.tlb.entry k).SamePage u.fill.toEntry := by
          intro k hk hsame
          exact Bool.false_ne_true ((hmiss k hk).symm.trans hsame.matches_fill)
        dsimp only
        rw [hentry, Function.update_apply, Function.update_apply]
        split
        · rename_i hiv
          rw [if_neg (fun hjv => hij (hiv.trans hjv.symm))]
          exact fun hsame => hnew j hj hsame.symm
        · split
          · exact hnew i hi
          · exact h.pages i hi j hj hij
      · exact h.pages i hi j hj hij

/-- **Run lemma.** The entries are distinct before every cycle. -/
theorem distinct_run (ins : ℕ → MmuIn) (n : ℕ) : Distinct (run ins n) := by
  induction n with
  | zero => exact ⟨fun h => absurd rfl h, fun h => Bool.noConfusion h, fun _ _ _ _ _ h =>
      Bool.noConfusion h.valid⟩
  | succ n ih => exact ih.next (ins n)

/-! ## With page tables that stay as they are -/

/-- The page-table words that the walker has read since the last flush are those of `m`. -/
def PageTableUnchanged (ins : ℕ → MmuIn) (n : ℕ) (m : Word → Word) : Prop :=
  ∀ (g t : ℕ) (addr word : Word), WalkRead ins g t addr word → t < n → NoFlush ins g n →
    m addr = word

/-- A page table decides whether an address is in a megapage. -/
theorem LeafOf.megapage_eq {m : Word → Word} {root va : Word} {mega mega' : Bool}
    {pte pte' : Word} (h : LeafOf (fun a w => m a = w) root va mega pte)
    (h' : LeafOf (fun a w => m a = w) root va mega' pte') : mega = mega' := by
  cases h with
  | megapage read usable leaf aligned =>
    cases h' with
    | megapage => rfl
    | page read1 usable1 pointer =>
      rw [← read, read1, pointer] at leaf
      exact leaf.symm
  | page read1 usable1 pointer =>
    cases h' with
    | megapage read usable leaf aligned =>
      rw [← read, read1, pointer] at leaf
      exact leaf
    | page => rfl

/-- **At most one entry covers an address**, with page tables unchanged since the last flush. -/
theorem entry_unique (hp : WalkPort ins) {m : Word → Word} (hm : PageTableUnchanged ins n m)
    {va : Word} {i j : ℕ} (hi : i < tlbEntries) (hj : j < tlbEntries)
    (hmi : ((run ins n).tlb.entry i).matches va = true)
    (hmj : ((run ins n).tlb.entry j).matches va = true) : i = j := by
  by_contra hij
  have hleafi := ((holds_run hp n).tlb i va hmi).leafOf (R := fun a w => m a = w) (hm _ _ _ _)
  have hleafj := ((holds_run hp n).tlb j va hmj).leafOf (R := fun a w => m a = w) (hm _ _ _ _)
  have hsize := hleafi.megapage_eq hleafj
  exact (distinct_run ins n).pages i hi j hj hij (TlbEntry.samePage_of_matches hmi hmj hsize)

/-- The fills and flushes that the walker sends to the TLB. -/
def tlbUpdates (ins : ℕ → MmuIn) (n : ℕ) : Tlb.Update := ⟨(ins n).flushTlb, (run ins n).fill⟩

/-- The TLB of the MMU is the ring of its fills. -/
theorem tlb_run (ins : ℕ → MmuIn) (n : ℕ) :
    (run ins n).tlb = Clocked.run (Tlb.edge tlbEntries) Tlb.reset (tlbUpdates ins) n := by
  induction n with
  | zero => rfl
  | succ n ih =>
    rw [Clocked.run_succ, ← ih]
    rfl

/-- What the TLB contains in a run of the MMU. -/
structure TlbUnique (ins : ℕ → MmuIn) (n : ℕ) : Prop where
  /-- The lookups of the MMU find the last fills of its walks. -/
  lookup : ∀ va, Tlb.LooksUp tlbEntries ((Tlb.fills (tlbUpdates ins) n).take tlbEntries)
    (run ins n).tlb va
  /-- No two valid entries of a 4 KB page have the same page number. -/
  pages : ∀ i < tlbEntries, ∀ j < tlbEntries, i ≠ j →
    ((run ins n).tlb.entry i).valid = true → ((run ins n).tlb.entry j).valid = true →
    ((run ins n).tlb.entry i).megapage = false → ((run ins n).tlb.entry j).megapage = false →
    ((run ins n).tlb.entry i).tag ≠ ((run ins n).tlb.entry j).tag
  /-- With page tables unchanged since the last flush at most one entry covers an address. -/
  unique : WalkPort ins → ∀ m, PageTableUnchanged ins n m → ∀ va, ∀ i < tlbEntries,
    ∀ j < tlbEntries, ((run ins n).tlb.entry i).matches va = true →
    ((run ins n).tlb.entry j).matches va = true → i = j

/-- **Lookups answer from the last fills, and entries stay unique**, before every cycle. -/
theorem tlbUnique_run (ins : ℕ → MmuIn) (n : ℕ) : TlbUnique ins n where
  lookup := by
    intro va
    rw [tlb_run]
    exact Tlb.looksUp_run (by decide) (by decide) _ n va
  pages := by
    intro i hi j hj hij hv hv' hm hm' htag
    exact (distinct_run ins n).pages i hi j hj hij
      ⟨hv, hv', hm.trans hm'.symm, fun _ => htag, fun hmega => absurd (hm.symm.trans hmega)
        Bool.false_ne_true⟩
  unique hp _ hm _ _ hi _ hj hmi hmj := entry_unique hp hm hi hj hmi hmj

/-- **The contents of the TLB**, for any number of entries and any fills and flushes, and in any run
of the MMU. -/
theorem tlb_contents {entries : ℕ} (h1 : 1 ≤ entries) (h64 : entries ≤ 64) :
    (∀ (ups : ℕ → Tlb.Update) (n : ℕ) (va : Word), Tlb.LooksUp entries
      ((Tlb.fills ups n).take entries) (Clocked.run (Tlb.edge entries) Tlb.reset ups n) va) ∧
      ∀ (ins : ℕ → MmuIn) (n : ℕ), TlbUnique ins n :=
  ⟨fun ups n va => Tlb.looksUp_run h1 h64 ups n va, tlbUnique_run⟩

/-- Two fills of a TLB of three entries, the second in the cycle of a flush. -/
def fillAndFlush : ℕ → Tlb.Update
  | 0 => ⟨false, ⟨true, 0x00400000#32, 0x20000001#32, true⟩⟩
  | 1 => ⟨true, ⟨true, 0x00801000#32, 0x20000401#32, false⟩⟩
  | _ => ⟨false, ⟨false, 0#32, 0#32, false⟩⟩

/-- Fetches from two pages of 4 KB, one after the other, with a walk port that answers at once:
first a pointer and then a leaf. -/
def twoPages (n : ℕ) : MmuIn where
  flushTlb := false
  satp := 0x80080000#32
  dataSum := false
  dataMxr := false
  instrTranslateEnable := true
  instrVirtualAddr := if n < 5 then 0x00400000#32 else 0x00801000#32
  instrPrivMode := 1#2
  dataTranslateEnable := false
  dataVirtualAddr := 0#32
  dataRdEn := false
  dataWrReq := false
  dataPrivMode := 1#2
  walkGnt := true
  walkRvalid := true
  walkRdata := if n % 5 = 1 then 0x20000001#32 else 0x2000000F#32

/-- A TLB of three entries hits its fill before the flush. In the run of the MMU both pages are hit
after the second walk, each by its own entry. -/
theorem tlb_contents_three :
    (1 ≤ 3 ∧ 3 ≤ 64 ∧
      (Clocked.run (Tlb.edge 3) Tlb.reset fillAndFlush 1).hit 3 0x00412345#32 = true ∧
      Tlb.LooksUp 3 ((Tlb.fills fillAndFlush 1).take 3)
        (Clocked.run (Tlb.edge 3) Tlb.reset fillAndFlush 1) 0x00412345#32) ∧
    ((run twoPages 9).tlb.hit tlbEntries 0x00400123#32 = true ∧
      (run twoPages 9).tlb.hit tlbEntries 0x00801123#32 = true ∧
      ((run twoPages 9).tlb.entry 0).tag ≠ ((run twoPages 9).tlb.entry 1).tag ∧
      TlbUnique twoPages 9) := by
  obtain ⟨hring, hmmu⟩ := @tlb_contents 3 (by decide) (by decide)
  have huniq := hmmu twoPages 9
  refine ⟨⟨by decide, by decide, by decide, hring fillAndFlush 1 _⟩, by decide +kernel,
    by decide +kernel, ?_, huniq⟩
  exact huniq.pages 0 (by decide) 1 (by decide) (by decide) (by decide +kernel) (by decide +kernel)
    (by decide +kernel) (by decide +kernel)

end Sv32Mmu

end Synapse32
