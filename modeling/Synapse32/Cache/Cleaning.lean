import Synapse32.Cache.Refinement

/-! # FENCE.I cleaning

With `clean_req` held and the core silent, every cycle of the engine retires an MSHR, writes a dirty
line back, or brings one of the two closer; only the memory's answers are waited for. -/

namespace Synapse32

variable {P : DcacheParams}

/-! ## How much is left to do -/

/-- The dirty ways of all sets. -/
def Lines.dirtyWays (P : DcacheParams) (l : Lines) : Finset (ℕ × ℕ) :=
  (Finset.range P.sets ×ˢ Finset.range P.numWays).filter fun p => l.dirty p.2 p.1 = true

/-- A set has a dirty way. -/
def Lines.DirtySet (P : DcacheParams) (l : Lines) (set : ℕ) : Prop :=
  ∃ i < P.numWays, l.dirty i set = true

/-- Whether a set is dirty can be decided. -/
instance (l : Lines) (set : ℕ) : Decidable (l.DirtySet P set) :=
  inferInstanceAs (Decidable (∃ i < P.numWays, l.dirty i set = true))

/-- How many sets the scan passes before the next dirty one. -/
noncomputable def Lines.scanDistance (P : DcacheParams) (l : Lines) (set : ℕ) : ℕ :=
  sInf {k | l.DirtySet P ((set + k) % P.sets)}

/-- The dirty ways are the entries of the arrays whose dirty bit is set. -/
theorem mem_dirtyWays {l : Lines} {s i : ℕ} :
    (s, i) ∈ l.dirtyWays P ↔ s < P.sets ∧ i < P.numWays ∧ l.dirty i s = true := by
  simp [Lines.dirtyWays, and_assoc]

/-- Writing a dirty way back leaves one less. -/
theorem card_dirtyWays_takeOut {l : Lines} {s i : ℕ} {c : Bool} (hs : s < P.sets)
    (hi : i < P.numWays) (hd : l.dirty i s = true) :
    ((l.takeOut i s c).dirtyWays P).card < (l.dirtyWays P).card := by
  apply Finset.card_lt_card
  rw [Finset.ssubset_iff_of_subset]
  · refine ⟨(s, i), mem_dirtyWays.mpr ⟨hs, hi, hd⟩, ?_⟩
    intro hmem
    exact (dirty_takeOut (mem_dirtyWays.mp hmem).2.2).1 ⟨rfl, rfl⟩
  · rintro ⟨s', i'⟩ hmem
    obtain ⟨hs', hi', hd'⟩ := mem_dirtyWays.mp hmem
    exact mem_dirtyWays.mpr ⟨hs', hi', (dirty_takeOut hd').2⟩

section Scan

variable {l : Lines} {set : ℕ}

/-- If any set is dirty, the scan reaches one before it is around. -/
theorem scanDistance_lt (hany : ∃ s < P.sets, l.DirtySet P s) (hset : set < P.sets) :
    l.scanDistance P set < P.sets := by
  obtain ⟨s, hs, hd⟩ := hany
  have hmem : (s + P.sets - set) % P.sets ∈ {k | l.DirtySet P ((set + k) % P.sets)} := by
    show l.DirtySet P ((set + (s + P.sets - set) % P.sets) % P.sets)
    have hback : (set + (s + P.sets - set) % P.sets) % P.sets = s := by
      rw [Nat.add_mod_mod, show set + (s + P.sets - set) = s + P.sets by omega,
        Nat.add_mod_right, Nat.mod_eq_of_lt hs]
    rwa [hback]
  exact (Nat.sInf_le hmem).trans_lt (Nat.mod_lt _ P.sets_pos)

/-- Passing a set that is not dirty brings the next dirty one closer. -/
theorem scanDistance_succ (hany : ∃ s < P.sets, l.DirtySet P s) (hset : set < P.sets)
    (hclean : ¬ l.DirtySet P set) :
    l.scanDistance P ((set + 1) % P.sets) < l.scanDistance P set := by
  have hne : {k | l.DirtySet P ((set + k) % P.sets)}.Nonempty := by
    obtain ⟨s, hs, hd⟩ := hany
    refine ⟨s + P.sets - set, ?_⟩
    show l.DirtySet P ((set + (s + P.sets - set)) % P.sets)
    rwa [show set + (s + P.sets - set) = s + P.sets by omega, Nat.add_mod_right,
      Nat.mod_eq_of_lt hs]
  have hmem : l.DirtySet P ((set + l.scanDistance P set) % P.sets) := Nat.sInf_mem hne
  -- the distance is not zero, and one step on it is one less
  cases hk : l.scanDistance P set with
  | zero =>
    rw [hk, Nat.add_zero, Nat.mod_eq_of_lt hset] at hmem
    exact absurd hmem hclean
  | succ k =>
    rw [hk] at hmem
    have hle : l.scanDistance P ((set + 1) % P.sets) ≤ k := by
      apply Nat.sInf_le
      show l.DirtySet P (((set + 1) % P.sets + k) % P.sets)
      rwa [Nat.mod_add_mod, Nat.add_assoc, Nat.add_comm 1 k]
    omega

end Scan

/-! ## The rank -/

/-- The cycles that the engine itself has left until the next MSHR retires or the next dirty way
is taken out, the memory answering at once. -/
noncomputable def Engine.work (P : DcacheParams) (e : Engine) (l : Lines) : ℕ :=
  match e.state with
  | .fill => P.words - e.word
  | .victim => P.words + 1
  | .tag => P.words + 2
  | .scan =>
    if l.mshr = [] ∧ ∃ s < P.sets, l.DirtySet P s then P.words + 3 + l.scanDistance P e.scanSet
    else P.words + 4
  | .idle =>
    if l.mshr = [] ∧ ∃ s < P.sets, l.DirtySet P s then P.words + 4 + P.sets else P.words + 3
  | .bypass => P.words + 5 + P.sets
  | .evictWrite => P.words + 5 + P.sets + (P.words - e.word)
  | .evictRead => P.words + 5 + P.sets + P.words + (P.words + 1 - e.word)

/-- **What is left to do**: MSHRs first, then dirty ways, then the engine's own cycles. A fill may
leave a dirty way, but it retires its MSHR. -/
noncomputable def Engine.rank (P : DcacheParams) (e : Engine) (l : Lines) : ℕ ×ₗ ℕ ×ₗ ℕ :=
  toLex (l.mshr.length, toLex ((l.dirtyWays P).card, e.work P l))

section Rank

variable {l l' : Lines} {e e' : Engine}

/-- Less work left with the same dirty ways is progress. -/
theorem rank_lt_of_work (h : e'.work P l < e.work P l) : e'.rank P l < e.rank P l := by
  rw [Engine.rank, Engine.rank, Prod.Lex.toLex_lt_toLex, Prod.Lex.toLex_lt_toLex]
  exact Or.inr ⟨rfl, Or.inr ⟨rfl, h⟩⟩

/-- A dirty way less is progress, whatever work that brings. -/
theorem rank_lt_of_dirty (hm : l'.mshr = l.mshr)
    (h : (l'.dirtyWays P).card < (l.dirtyWays P).card) : e'.rank P l' < e.rank P l := by
  rw [Engine.rank, Engine.rank, Prod.Lex.toLex_lt_toLex, Prod.Lex.toLex_lt_toLex, hm]
  exact Or.inr ⟨rfl, Or.inl h⟩

/-- A waiting line less is progress, whatever work that brings. -/
theorem rank_lt_of_mshr (h : l'.mshr.length < l.mshr.length) : e'.rank P l' < e.rank P l := by
  rw [Engine.rank, Engine.rank, Prod.Lex.toLex_lt_toLex]
  exact Or.inl h

/-- The data are no part of the rank. -/
theorem rank_of_data (data : ℕ → ℕ → Word) : e.rank P { l with data := data } = e.rank P l := rfl

/-- Looking for work takes less than writing a line back. -/
theorem work_scan_lt (hs : e.state = .scan) (hscan : e.scanSet < P.sets) :
    e.work P l < P.words + 5 + P.sets := by
  unfold Engine.work
  rw [hs]
  have hpos := P.sets_pos
  show (if l.mshr = [] ∧ ∃ s < P.sets, l.DirtySet P s then
    P.words + 3 + l.scanDistance P e.scanSet else P.words + 4) < _
  split
  · rename_i h
    have := scanDistance_lt h.2 hscan
    omega
  · omega

/-- An idle engine has less left to do than one that bypasses or evicts. -/
theorem work_idle_lt (hs : e.state = .idle) : e.work P l < P.words + 5 + P.sets := by
  unfold Engine.work
  rw [hs]
  show (if l.mshr = [] ∧ ∃ s < P.sets, l.DirtySet P s then P.words + 4 + P.sets
    else P.words + 3) < _
  split <;> omega

end Rank

namespace Dcache

variable {d : Dcache} {r : DcacheReq} {m : MemRsp} {ram : Ram}

/-- `dirtyAny` finds a dirty way anywhere. -/
theorem dirtyAny_iff : dirtyAny P d = true ↔ ∃ s < P.sets, d.lines.DirtySet P s := by
  simp only [dirtyAny, anyIndex_iff, Lines.DirtySet]

/-- `scanDirty` finds a dirty way in the set that the scan has reached. -/
theorem scanDirty_iff : scanDirty P d = true ↔ d.lines.DirtySet P d.eng.scanSet := by
  simp only [scanDirty, anyIndex_iff, Lines.DirtySet]

/-- `mshrEmpty` says that no line waits. -/
theorem mshrEmpty_iff : mshrEmpty d = true ↔ d.lines.mshr = [] := by
  rw [mshrEmpty, List.isEmpty_iff]

/-! ## The set that is being cleaned -/

/-- The set that is to be cleaned has a dirty way until one of them is taken out. -/
def CleanTarget (P : DcacheParams) (d : Dcache) : Prop :=
  d.eng.clean = true → d.eng.state = .tag ∨ d.eng.state = .victim → d.lines.DirtySet P d.eng.set

/-- A served request cleans nothing. -/
theorem dirtySet_served' {s : ℕ} (h : d.lines.DirtySet P s) :
    (served' P d r m).DirtySet P s := by
  obtain ⟨i, hi, hd⟩ := h
  refine ⟨i, hi, ?_⟩
  unfold served'
  split_ifs
  · show update2 d.lines.dirty (hitWay P d r) (P.setOf (P.lineOf r.addr)) true i s = true
    by_cases his : i = hitWay P d r ∧ s = P.setOf (P.lineOf r.addr)
    · obtain ⟨rfl, rfl⟩ := his
      exact update2_self _ _ _ _
    · rwa [update2_of_ne _ _ his]
  all_goals exact hd

/-- Cleaning starts from a dirty set, and the choice of the way follows the tags. -/
theorem clean_of_next_tag (hc : (nextEng P d r m).clean = true)
    (hs : (nextEng P d r m).state = .tag ∨ (nextEng P d r m).state = .victim) :
    (d.eng.state = .scan ∧ scanDirty P d = true ∧ (nextEng P d r m).set = d.eng.scanSet) ∨
      (d.eng.state = .tag ∧ d.eng.clean = true ∧ (nextEng P d r m).set = d.eng.set) := by
  cases hst : d.eng.state with
  | tag =>
    obtain ⟨hset, hclean⟩ := target_next (P := P) (r := r) (m := m) (d := d) (by simp [hst])
      (by simp [hst])
    exact Or.inr ⟨rfl, hclean.symm.trans hc, hset⟩
  | scan =>
    rw [nextEng_of_scan hst] at hs ⊢
    split_ifs at hs ⊢ with hstop hdirty
    · exact absurd hs (by decide)
    · exact Or.inl ⟨rfl, hdirty, rfl⟩
    · exact absurd hs (by simp [hst])
  | idle =>
    -- from idle the engine turns to an MSHR, not to a set to clean
    rw [nextEng_of_idle hst] at hc hs
    split_ifs at hc hs with hgo hgnt hm hcl
    · exact absurd hs (by decide)
    · exact absurd hs (by simp [hst])
    · exact absurd hs (by decide)
    · exact absurd hs (by simp [hst])
  | _ =>
    unfold nextEng at hs
    simp only [hst] at hs
    split_ifs at hs <;> simp_all

/-- **Step.** The set that is to be cleaned keeps a dirty way until one is taken out. -/
theorem CleanTarget.next (h : CleanTarget P d) : CleanTarget P (next P d r m) := by
  intro hc hs
  have hfill : ∀ st : EngState, d.eng.state = st → st ≠ .fill → fillWrite d m = false :=
    fun st h1 h2 => by simp [fillWrite, h1, h2]
  show (Dcache.next P d r m).lines.DirtySet P (nextEng P d r m).set
  rcases clean_of_next_tag hc hs with ⟨hst, hd, hset⟩ | ⟨hst, hcl, hset⟩
  · rw [next_lines_of_quiet (by simp [hst]) (hfill _ hst (by simp)), hset]
    exact dirtySet_served' (scanDirty_iff.mp hd)
  · rw [next_lines_of_quiet (by simp [hst]) (hfill _ hst (by simp)), hset]
    exact dirtySet_served' (h hcl (Or.inl hst))

/-- In a set with a dirty way the victim of a clean is dirty. -/
theorem victimDirty_of_clean (hc : d.eng.clean = true) (h : d.lines.DirtySet P d.eng.set) :
    victimDirty P d = true := by
  obtain ⟨i, hi, hd⟩ := h
  unfold victimDirty victim
  cases hf : (List.range P.numWays).find? fun k =>
      if d.eng.clean then d.lines.dirty k d.eng.set else !d.lines.valid k d.eng.set with
  | none =>
    have := List.find?_eq_none.mp hf i (List.mem_range.mpr hi)
    simp [hc, hd] at this
  | some k =>
    have := List.find?_some hf
    simpa [hc] using this

/-! ## One silent cycle, in every engine state -/

/-- What the cache has left to do. -/
noncomputable def rank (P : DcacheParams) (d : Dcache) : ℕ ×ₗ ℕ ×ₗ ℕ := d.eng.rank P d.lines

/-- The engine waits for the memory. -/
def Waits (d : Dcache) : Prop :=
  d.eng.state = .evictWrite ∨ d.eng.state = .fill ∨ d.eng.state = .bypass

/-- A core that asks for nothing causes no lookup. -/
theorem lookup_of_silent (hreq : r.req = false) : lookup P d r m = false := by
  simp [lookup, hreq]

/-- In a silent cycle only the engine changes the arrays. -/
theorem lines_of_silent (hreq : r.req = false) (hv : d.eng.state ≠ .victim)
    (hf : fillWrite d m = false) : (next P d r m).lines = d.lines := by
  rw [next_lines_of_quiet hv hf, served'_of_no_lookup (lookup_of_silent hreq)]

/-- A step of the engine alone. -/
theorem rank_lt_of_step (hlines : (next P d r m).lines = d.lines) {e' : Engine}
    (heng : nextEng P d r m = e') (hw : e'.work P d.lines < d.eng.work P d.lines) :
    rank P (next P d r m) < rank P d := by
  show (nextEng P d r m).rank P (next P d r m).lines < d.eng.rank P d.lines
  rw [hlines, heng]
  exact rank_lt_of_work hw

section Silent

variable (hreq : r.req = false)

include hreq

/-- From IDLE a waiting line is served, or the scan begins. -/
theorem rank_idle (hs : d.eng.state = .idle) (hcl : r.cleanReq = true)
    (hnot : clean P d = false) (hscan : d.eng.scanSet < P.sets) :
    rank P (next P d r m) < rank P d := by
  -- A silent cycle moves no line here, so only the engine's own work can fall.
  have hlines : (next P d r m).lines = d.lines :=
    lines_of_silent hreq (by simp [hs]) (by simp [fillWrite, hs])
  have hgo : bypassGo d r = false := by simp [bypassGo, hreq]
  by_cases hempty : d.lines.mshr = []
  · -- nothing waits, so there is a dirty way to look for
    have hdirty : dirtyAny P d = true := by
      simpa [clean, hs, mshrEmpty_iff.mpr hempty] using hnot
    have hany := dirtyAny_iff.mp hdirty
    have heng : nextEng P d r m = { d.eng with state := .scan } := by
      simp [nextEng, hs, hgo, mshrEmpty_iff.mpr hempty, hcl, hdirty]
    apply rank_lt_of_step hlines heng
    have := scanDistance_lt hany hscan
    simp only [Engine.work, hs]
    rw [if_pos ⟨hempty, hany⟩, if_pos ⟨hempty, hany⟩]
    omega
  · -- An MSHR comes first, whatever is dirty.
    have hne : mshrEmpty d = false := by
      rw [Bool.eq_false_iff]
      exact fun h => hempty (mshrEmpty_iff.mp h)
    have heng : nextEng P d r m =
        { d.eng with state := .tag, clean := false, set := P.setOf (head d).line } := by
      simp [nextEng, hs, hgo, hne]
    apply rank_lt_of_step hlines heng
    simp only [Engine.work, hs]
    rw [if_neg fun h => hempty h.1]
    omega

/-- SCAN finds a dirty way to write back, or steps to the next set. -/
theorem rank_scan (hs : d.eng.state = .scan) (hcl : r.cleanReq = true)
    (hscan : d.eng.scanSet < P.sets) : rank P (next P d r m) < rank P d := by
  have hlines : (next P d r m).lines = d.lines :=
    lines_of_silent hreq (by simp [hs]) (by simp [fillWrite, hs])
  by_cases hgo : d.lines.mshr = [] ∧ ∃ s < P.sets, d.lines.DirtySet P s
  · obtain ⟨hempty, hany⟩ := hgo
    have hdirty := dirtyAny_iff.mpr hany
    by_cases hset : d.lines.DirtySet P d.eng.scanSet
    · -- The set holds a dirty way: the scan turns to it.
      have heng : nextEng P d r m =
          { d.eng with state := .tag, clean := true, set := d.eng.scanSet } := by
        simp [nextEng, hs, mshrEmpty_iff.mpr hempty, hcl, hdirty, scanDirty_iff.mpr hset]
      apply rank_lt_of_step hlines heng
      simp only [Engine.work, hs]
      rw [if_pos ⟨hempty, hany⟩]
      omega
    · have hno : scanDirty P d = false := by
        rw [Bool.eq_false_iff]
        exact fun h => hset (scanDirty_iff.mp h)
      have heng : nextEng P d r m =
          { d.eng with scanSet := (d.eng.scanSet + 1) % P.sets } := by
        simp [nextEng, hs, mshrEmpty_iff.mpr hempty, hcl, hdirty, hno]
      apply rank_lt_of_step hlines heng
      -- The next dirty set is one set nearer, around the end of the sets if need be.
      have := scanDistance_succ hany hscan hset
      simp only [Engine.work, hs]
      rw [if_pos ⟨hempty, hany⟩, if_pos ⟨hempty, hany⟩]
      omega
  · -- an MSHR, or nothing dirty: back to idle
    have hstop : (!mshrEmpty d || !r.cleanReq || !dirtyAny P d) = true := by
      by_contra h
      simp only [Bool.not_eq_true, Bool.or_eq_false_iff, Bool.not_eq_false'] at h
      exact hgo ⟨mshrEmpty_iff.mp h.1.1, dirtyAny_iff.mp h.2⟩
    have heng : nextEng P d r m = { d.eng with state := .idle } := by
      rw [nextEng_of_scan hs, if_pos hstop]
    apply rank_lt_of_step hlines heng
    simp only [Engine.work, hs]
    rw [if_neg hgo, if_neg hgo]
    omega

/-- TAG leads on to the victim. -/
theorem rank_tag (hs : d.eng.state = .tag) : rank P (next P d r m) < rank P d := by
  have hlines : (next P d r m).lines = d.lines :=
    lines_of_silent hreq (by simp [hs]) (by simp [fillWrite, hs])
  have heng : nextEng P d r m = { d.eng with state := .victim } := by simp only [nextEng, hs]
  apply rank_lt_of_step hlines heng
  simp only [Engine.work, hs]
  omega

omit hreq in
/-- The victim is a dirty way, or clean and in the way of a fill. -/
theorem rank_victim (hs : d.eng.state = .victim) (hset : d.eng.set < P.sets)
    (ht : CleanTarget P d) : rank P (next P d r m) < rank P d := by
  show (nextEng P d r m).rank P (next P d r m).lines < d.eng.rank P d.lines
  rw [next_lines_of_victim hs]
  cases hd : victimDirty P d
  · have hc : d.eng.clean = false := by
      by_contra hc
      have hc : d.eng.clean = true := by simpa using hc
      rw [victimDirty_of_clean hc (ht hc (Or.inr hs))] at hd
      exact absurd hd (by simp)
    -- no dirty bit is cleared
    have hdirty : update2 d.lines.dirty (victim P d) d.eng.set false = d.lines.dirty := by
      funext i s
      by_cases his : i = victim P d ∧ s = d.eng.set
      · obtain ⟨rfl, rfl⟩ := his
        rw [update2_self]
        exact hd.symm
      · rw [update2_of_ne _ _ his]
    have hstate : (nextEng P d r m).state = .fill := by simp [nextEng, hs, hd, hc]
    have hword : (nextEng P d r m).word = 0 := by simp [nextEng, hs]
    have hcard : (d.lines.takeOut (victim P d) d.eng.set d.eng.clean).dirtyWays P =
        d.lines.dirtyWays P := by
      unfold Lines.dirtyWays Lines.takeOut
      rw [hdirty]
    rw [Engine.rank, Engine.rank, Prod.Lex.toLex_lt_toLex, Prod.Lex.toLex_lt_toLex]
    refine Or.inr ⟨rfl, Or.inr ⟨congrArg Finset.card hcard, ?_⟩⟩
    simp only [Engine.work, hs, hstate, hword]
    omega
  · exact rank_lt_of_dirty rfl (card_dirtyWays_takeOut hset victim_lt hd)

/-- EVICT_READ takes the next word of the line. -/
theorem rank_evictRead (hs : d.eng.state = .evictRead) (hw : d.eng.word ≤ P.words) :
    rank P (next P d r m) < rank P d := by
  have hlines : (next P d r m).lines = d.lines :=
    lines_of_silent hreq (by simp [hs]) (by simp [fillWrite, hs])
  apply rank_lt_of_step hlines (nextEng_of_evictRead hs)
  rcases evictReadStep_cases (P := P) (e := d.eng) (v := d.rd.data d.eng.way) with
    ⟨hlast, hst, hword⟩ | ⟨hne, hst, hword⟩
  · simp only [Engine.work, hs, hst, hword]
    omega
  · simp only [Engine.work, hst, hs, hword]
    omega

/-- EVICT_WRITE hands over a word, and with the last one cleans a way. -/
theorem rank_evictWrite (hs : d.eng.state = .evictWrite) (hw : d.eng.word < P.words)
    (hscan : d.eng.scanSet < P.sets) (hrv : m.rvalid = true) :
    rank P (next P d r m) < rank P d := by
  have hlines : (next P d r m).lines = d.lines :=
    lines_of_silent hreq (by simp [hs]) (by simp [fillWrite, hs])
  have hidx : engWordIndex P d = d.eng.word := Nat.mod_eq_of_lt hw
  have hwork : d.eng.work P d.lines = P.words + 5 + P.sets + (P.words - d.eng.word) := by
    simp only [Engine.work, hs]
  -- The last word sends the engine on, to the line that waits or back to the scan.
  by_cases hlast : d.eng.word = P.words - 1
  · cases hc : d.eng.clean
    · have heng : nextEng P d r m = { d.eng with state := .fill, word := 0 } := by
        simp [nextEng, hs, hrv, hidx, hlast, hc]
      apply rank_lt_of_step hlines heng
      rw [hwork]
      simp only [Engine.work]
      omega
    · have heng : nextEng P d r m = { d.eng with state := .scan, word := 0 } := by
        simp [nextEng, hs, hrv, hidx, hlast, hc]
      apply rank_lt_of_step hlines heng
      have := work_scan_lt (P := P) (l := d.lines)
        (e := { d.eng with state := .scan, word := 0 }) rfl hscan
      omega
  · have heng : nextEng P d r m = { d.eng with word := d.eng.word + 1 } := by
      simp [nextEng, hs, hrv, hidx, hlast]
    apply rank_lt_of_step hlines heng
    rw [hwork]
    simp only [Engine.work, hs]
    omega

omit hreq in
/-- A word that lands fills the line, or is one less to come. -/
theorem rank_fill (hs : d.eng.state = .fill) (hw : d.eng.word < P.words)
    (hhead : d.lines.mshr.head? = some (head d)) (hrv : m.rvalid = true) :
    rank P (next P d r m) < rank P d := by
  have hidx : engWordIndex P d = d.eng.word := Nat.mod_eq_of_lt hw
  have hf : fillWrite d m = true := by simp [fillWrite, hs, hrv]
  show (nextEng P d r m).rank P (next P d r m).lines < d.eng.rank P d.lines
  cases hlast : fillLast P d m
  · have heng : nextEng P d r m = { d.eng with word := d.eng.word + 1 } := by
      simp [nextEng, hs, hlast, hf]
    have hne : d.eng.word ≠ P.words - 1 := fun h => by simp [fillLast, hf, hidx, h] at hlast
    rw [next_lines_of_fillWrite hf hlast hw, heng]
    show Engine.rank P _ { d.lines with data := _ } < _
    rw [rank_of_data]
    apply rank_lt_of_work
    simp only [Engine.work, hs]
    omega
  · rw [next_lines_of_fillLast hlast hw]
    apply rank_lt_of_mshr
    show d.lines.mshr.tail.length < d.lines.mshr.length
    rw [mshr_eq_cons hhead]
    simp

/-- BYPASS ends with the answer of memory. -/
theorem rank_bypass (hs : d.eng.state = .bypass) (hrv : m.rvalid = true) :
    rank P (next P d r m) < rank P d := by
  have hlines : (next P d r m).lines = d.lines :=
    lines_of_silent hreq (by simp [hs]) (by simp [fillWrite, hs])
  have heng : nextEng P d r m = { d.eng with state := .idle } := by simp [nextEng, hs, hrv]
  apply rank_lt_of_step hlines heng
  have := work_idle_lt (P := P) (l := d.lines) (e := { d.eng with state := .idle }) rfl
  simp only [Engine.work, hs] at this ⊢
  omega

/-- Without an answer the engine stays where it waits. -/
theorem rank_waiting (hw : Waits d) (hrv : m.rvalid = false) :
    rank P (next P d r m) = rank P d := by
  have hf : fillWrite d m = false := by simp [fillWrite, hrv]
  have hlines : (next P d r m).lines = d.lines :=
    lines_of_silent hreq (by rcases hw with hs | hs | hs <;> simp [hs]) hf
  have heng : nextEng P d r m = d.eng := by
    rcases hw with hs | hs | hs
    · simp [nextEng, hs, hrv]
    · simp [nextEng, hs, fillLast, hf]
    · simp [nextEng, hs, hrv]
  show (nextEng P d r m).rank P (next P d r m).lines = d.eng.rank P d.lines
  rw [hlines, heng]

/-- **One silent cycle** leaves less to do, or waits for the memory. -/
theorem rank_next (h : Inv P d ram) (ht : CleanTarget P d) (hcl : r.cleanReq = true)
    (hnot : clean P d = false) :
    rank P (next P d r m) < rank P d ∨
      (Waits d ∧ m.rvalid = false ∧ rank P (next P d r m) = rank P d) := by
  by_cases hwait : Waits d ∧ m.rvalid = false
  · exact Or.inr ⟨hwait.1, hwait.2, rank_waiting hreq hwait.1 hwait.2⟩
  have hrv : Waits d → m.rvalid = true := by
    intro hw
    by_contra hno
    exact hwait ⟨hw, by simpa using hno⟩
  have hscan := h.eng.scan_lt
  left
  cases hs : d.eng.state with
  | idle => exact rank_idle hreq hs hcl hnot hscan
  | scan => exact rank_scan hreq hs hcl hscan
  | tag => exact rank_tag hreq hs
  | victim => exact rank_victim hs h.eng.set_lt ht
  | evictRead => exact rank_evictRead hreq hs (h.eng.read_word hs)
  | evictWrite => exact rank_evictWrite hreq hs (h.eng.write_word hs) hscan (hrv (Or.inl hs))
  | fill =>
    exact rank_fill hs (h.eng.fill_word hs) (head_of_fill h hs) (hrv (Or.inr (Or.inl hs)))
  | bypass => exact rank_bypass hreq hs (hrv (Or.inr (Or.inr hs)))

end Silent

end Dcache

/-! ## Every run -/

namespace CacheSystem

/-- A word request is presented at the memory port, or held by it. -/
def Pending (s : CacheSystem) (r : DcacheReq) : Prop :=
  Dcache.memReq s.cache r = true ∨ s.port ≠ .idle

/-- **The memory answers every word request** from cycle `n0` on. -/
def Answers (P : DcacheParams) (init : CacheSystem) (ins : ℕ → DcacheReq × MemChoice)
    (n0 : ℕ) : Prop :=
  ∀ n ≥ n0, Pending (run P init ins n) (ins n).1 →
    ∃ m ≥ n, (response P (run P init ins m) (ins m).1 (ins m).2).rvalid = true

/-- A bypass is held by the port until it is answered. -/
def BypassHeld (s : CacheSystem) : Prop := s.cache.eng.state = .bypass → s.port ≠ .idle

variable {s : CacheSystem} {r : DcacheReq} {c : MemChoice}

/-- **Step.** A bypassed access stays held until it is answered. -/
theorem BypassHeld.next (h : BypassHeld s) : BypassHeld (CacheSystem.next P s r c) := by
  intro hs
  obtain ⟨hrv, hcase⟩ := Dcache.state_of_next_bypass (d := s.cache) (r := r)
    (m := response P s r c) hs
  have hbusy : s.port.accepted (request P s r) c ≠ .idle := by
    rcases hcase with hold | ⟨-, hg⟩
    · have := h hold
      cases hp : s.port <;> simp_all [MemPort.accepted]
    · have hg : s.port.gnt (request P s r) c = true := hg
      cases hp : s.port <;> cases hq : request P s r <;>
        simp_all [MemPort.gnt, MemPort.accepted]
  have hrv : ((s.port.accepted (request P s r) c).accessed s.ram c).rvalid c = false := hrv
  show ((s.port.accepted (request P s r) c).accessed s.ram c).responded c ≠ .idle
  cases hp : s.port.accepted (request P s r) c with
  | idle => exact absurd hp hbusy
  | waiting q =>
    rw [hp] at hrv
    cases ha : c.access
    · simp [MemPort.accessed, MemPort.responded, ha]
    · have hno : c.respond = false := by simpa [MemPort.accessed, MemPort.rvalid, ha] using hrv
      simp [MemPort.accessed, MemPort.responded, ha, hno]
  | done q v =>
    rw [hp] at hrv
    have hno : c.respond = false := by simpa [MemPort.accessed, MemPort.rvalid] using hrv
    simp [MemPort.accessed, MemPort.responded, hno]

/-- What the engine waits for is pending. -/
theorem pending_of_waits (h : BypassHeld s) (hw : Dcache.Waits s.cache) : Pending s r := by
  rcases hw with hs | hs | hs
  · left
    simp [Dcache.memReq, Dcache.memLine, hs]
  · left
    simp [Dcache.memReq, Dcache.memLine, hs]
  · exact Or.inr (h hs)

/-- A port that accepts, accesses and responds in every cycle answers. -/
theorem answers_of_prompt {init : CacheSystem} {ins : ℕ → DcacheReq × MemChoice} {n0 : ℕ}
    (h : ∀ n ≥ n0, (ins n).2.accept = true ∧ (ins n).2.access = true ∧
      (ins n).2.respond = true) : Answers P init ins n0 := by
  intro n hn hpend
  obtain ⟨hacc, hace, hres⟩ := h n hn
  refine ⟨n, le_rfl, ?_⟩
  show (((run P init ins n).port.accepted (request P (run P init ins n) (ins n).1)
    (ins n).2).accessed (run P init ins n).ram (ins n).2).rvalid (ins n).2 = true
  cases hp : (run P init ins n).port with
  | idle =>
    have hreq : Dcache.memReq (run P init ins n).cache (ins n).1 = true :=
      hpend.resolve_right fun hbusy => hbusy hp
    simp [request, hreq, MemPort.accepted, MemPort.accessed, MemPort.rvalid, hacc, hace, hres]
  | waiting q => simp [MemPort.accepted, MemPort.accessed, MemPort.rvalid, hace, hres]
  | done q v => simp [MemPort.accepted, MemPort.accessed, MemPort.rvalid, hres]

/-- The facts about the engine that a cleaning rests on, before every cycle. -/
theorem cleanTarget_run (data : ℕ → ℕ → Word) (tag : ℕ → ℕ → ℕ) (dataRd : ℕ → Word)
    (tagRd : ℕ → ℕ) (ram : Ram) (ins : ℕ → DcacheReq × MemChoice) (n : ℕ) :
    Dcache.CleanTarget P (run P (reset data tag dataRd tagRd ram) ins n).cache ∧
      BypassHeld (run P (reset data tag dataRd tagRd ram) ins n) := by
  apply Clocked.run_invariant (P := fun s => Dcache.CleanTarget P s.cache ∧ BypassHeld s)
  · constructor
    · intro hc
      exact absurd hc (by simp [reset, Dcache.reset])
    · intro hs
      exact absurd hs (by simp [reset, Dcache.reset])
  · intro n h
    exact ⟨h.1.next, h.2.next⟩

/-- **Cleaning ends, and a clean cache has written everything back.** From any cycle of any run on,
if `clean_req` is held, no request arrives and the memory answers, the cache gets clean; and
whenever it is clean, the RAM has the words of the view. -/
theorem clean_terminates (P : DcacheParams) (data : ℕ → ℕ → Word) (tag : ℕ → ℕ → ℕ)
    (dataRd : ℕ → Word) (tagRd : ℕ → ℕ) (ram : Ram) (ins : ℕ → DcacheReq × MemChoice) :
    (∀ n0, (∀ n ≥ n0, (ins n).1.cleanReq = true ∧ (ins n).1.req = false) →
      Answers P (reset data tag dataRd tagRd ram) ins n0 →
      ∃ n ≥ n0, Dcache.clean P (run P (reset data tag dataRd tagRd ram) ins n).cache = true) ∧
    ∀ n, Dcache.clean P (run P (reset data tag dataRd tagRd ram) ins n).cache = true →
      ∀ a, isRam a = true →
        (run P (reset data tag dataRd tagRd ram) ins n).ram (DcacheParams.wordAddr a) =
          view P (run P (reset data tag dataRd tagRd ram) ins n) (DcacheParams.wordAddr a) := by
  constructor
  · intro n0 hins hans
    -- The rank falls in every cycle that does not wait, and a wait ends by the answers.
    apply Clocked.eventually_of_rank
      (fun n => Dcache.rank P (run P (reset data tag dataRd tagRd ram) ins n).cache)
      (fun n => Dcache.Waits (run P (reset data tag dataRd tagRd ram) ins n).cache)
      (fun n => (response P (run P (reset data tag dataRd tagRd ram) ins n)
        (ins n).1 (ins n).2).rvalid = true)
    · intro n hn hnot
      have hinv := systemInv_run (P := P) data tag dataRd tagRd ram ins n
      obtain ⟨ht, -⟩ := cleanTarget_run (P := P) data tag dataRd tagRd ram ins n
      obtain ⟨hcl, hreq⟩ := hins n hn
      rcases Dcache.rank_next hreq hinv.cache ht hcl (by simpa using hnot) with
        hlt | ⟨hw, hrv, heq⟩
      · exact Or.inl hlt
      · exact Or.inr ⟨hw, fun h => absurd (hrv.symm.trans h) (by simp), heq.le⟩
    · intro n hn hw
      obtain ⟨-, hb⟩ := cleanTarget_run (P := P) data tag dataRd tagRd ram ins n
      exact hans n hn (pending_of_waits hb hw)
  · intro n hc a _
    -- Clean or not, the invariant makes the view of a clean cache the RAM.
    have hinv := systemInv_run (P := P) data tag dataRd tagRd ram ins n
    exact congrFun (Dcache.view_of_clean hinv.cache hc).symm _

/-- A byte stored for nine cycles, then a clean, with an immediate memory. -/
def byteStoreClean (n : ℕ) : DcacheReq × MemChoice :=
  (⟨0#32, decide (9 ≤ n), decide (n < 9), 0x80000101#32, true, 0b0001#4, 0xAB#32, 0b000#3⟩,
    ⟨true, true, true, 0#32, 0#32⟩)

/-- A byte store, and then a clean request that stays up. -/
theorem clean_terminates_byteStoreClean :
    ∃ n ≥ 9, Dcache.clean smallParams (run smallParams (reset (fun _ _ => 0#32) (fun _ _ => 0)
      (fun _ => 0#32) (fun _ => 0) fun _ => 0#32) byteStoreClean n).cache = true :=
  (clean_terminates smallParams _ _ _ _ _ byteStoreClean).1 9
    (fun n hn => ⟨decide_eq_true hn, decide_eq_false (by omega)⟩)
    (answers_of_prompt fun _ _ => ⟨rfl, rfl, rfl⟩)

end CacheSystem

end Synapse32
