import Synapse32.Cache.Fetch

/-! # Every fetch is answered

A fetch that the core holds is granted and answered, as long as the memory goes on answering what
the cache asks of it: whatever the cache was doing when the fetch came, it becomes idle, misses at
most once, and then hits. -/

namespace Synapse32

namespace Icache

variable {P : IcacheParams} {c0 : Icache} {ins : ℕ → IcacheIn} {mem : History}

/-- The core asks for the word at `a`, and flushes nothing. -/
structure Asks (x : IcacheIn) (a : Word) : Prop where
  req : x.req = true
  addr : x.addr = a
  flush : x.flush = false

/-- **A memory that goes on answering**, from cycle `n0` on: an uncached fetch that is presented is
granted in the end, and a fill or a granted fetch that waits is answered in the end. -/
structure Heard (P : IcacheParams) (c0 : Icache) (ins : ℕ → IcacheIn) (n0 : ℕ) : Prop where
  grants : ∀ n ≥ n0, bypassReq (run P c0 ins n) (ins n) = true → ∃ m ≥ n, (ins m).memGnt = true
  answers : ∀ n ≥ n0, (run P c0 ins n).state = .fill ∨ (run P c0 ins n).state = .bypass →
    ∃ m ≥ n, (ins m).memRvalid = true

/-- What is left of the work that keeps the cache from looking up: the words of a fill and the
cycle that reads the arrays again, or the answer to an uncached fetch. -/
def work (P : IcacheParams) (c : Icache) : ℕ :=
  match c.state with
  | .idle => 0
  | .fill => P.lines.words - c.fillWord + 1
  | .refill => 1
  | .bypass => 1

/-! ## The cache becomes idle -/

variable {c : Icache} {x : IcacheIn} {n n0 : ℕ}

/-- The state of the FSM after the edge. -/
theorem state_next : (c.next P x).state = nextState P c x := rfl

/-- **One cycle of work**: something is done, or the memory is waited for. -/
theorem work_next (hs : c.state ≠ .idle)
    (hword : c.state = .fill → c.fillWord < P.lines.words) :
    work P (c.next P x) < work P c ∨
      ((c.state = .fill ∨ c.state = .bypass) ∧ x.memRvalid = false ∧
        work P (c.next P x) ≤ work P c) := by
  have hstate := state_next (P := P) (c := c) (x := x)
  cases hc : c.state
  case idle => exact absurd hc hs
  case fill =>
    obtain ⟨-, -, hw, -⟩ := fill_registers (P := P) (x := x) hc
    have hlt := hword hc
    rw [nextState, hc] at hstate
    dsimp only at hstate
    have hrank : work P c = P.lines.words - c.fillWord + 1 := by rw [work, hc]
    cases hv : x.memRvalid
    · -- No word comes, so the fill stays where it is.
      have hfw : fillWrite c x = false := by rw [fillWrite, hv, Bool.and_false]
      rw [fillLast, hfw, Bool.false_and, if_neg Bool.false_ne_true] at hstate
      rw [hfw, if_neg Bool.false_ne_true] at hw
      refine .inr ⟨.inl rfl, rfl, ?_⟩
      rw [hrank, work, hstate, hw]
    · have hfw : fillWrite c x = true := by rw [fillWrite, hv, hc]; rfl
      left
      rw [hrank]
      by_cases hl : fillLast P c x = true
      · rw [if_pos hl] at hstate
        rw [work, hstate]
        dsimp only
        omega
      · rw [if_neg hl] at hstate
        have hne : c.fillWord ≠ P.lines.words - 1 := by simpa [fillLast, hfw] using hl
        rw [hfw, if_pos rfl, Nat.mod_eq_of_lt (by omega)] at hw
        rw [work, hstate, hw]
        dsimp only
        omega
  case refill =>
    rw [nextState, hc] at hstate
    left
    rw [work, hstate, work, hc]
    exact Nat.zero_lt_one
  case bypass =>
    rw [nextState, hc] at hstate
    dsimp only at hstate
    have hrank : work P c = 1 := by rw [work, hc]
    cases hv : x.memRvalid
    · rw [hv, if_neg Bool.false_ne_true] at hstate
      refine .inr ⟨.inr rfl, rfl, ?_⟩
      rw [hrank, work, hstate]
    · rw [hv, if_pos rfl] at hstate
      left
      rw [hrank, work, hstate]
      exact Nat.zero_lt_one

/-- **The cache becomes idle** in the end. -/
theorem exists_idle (hinv : ∀ n, Inv P c0 ins mem n (run P c0 ins n)) (hh : Heard P c0 ins n0)
    (hn : n0 ≤ n) : ∃ m ≥ n, (run P c0 ins m).state = .idle := by
  refine Clocked.eventually_of_rank (fun m => work P (run P c0 ins m))
    (fun m => (run P c0 ins m).state = .fill ∨ (run P c0 ins m).state = .bypass)
    (fun m => (ins m).memRvalid = true) ?_ ?_
  · intro m _ hbusy
    rw [run_succ]
    rcases work_next (x := ins m) hbusy fun hs => ((hinv m).filling hs).word with
      hlt | ⟨hw, hv, hle⟩
    · exact .inl hlt
    · exact .inr ⟨hw, by rw [hv]; exact Bool.false_ne_true, hle⟩
  · intro m hm hw
    exact hh.answers m (by omega) hw

/-! ## A cacheable fetch -/

/-- Some way of the set holds the line. -/
def Present (P : IcacheParams) (c : Icache) (l : ℕ) : Prop :=
  ∃ i < P.numWays, c.valid i (P.lines.setOf l) = true ∧
    c.tag (P.lines.setOf l) i = P.lines.tagOf l

/-- **A lookup hits what is present.** -/
theorem Inv.hit_of_present (h : Inv P c0 ins mem n c) {a : Word} (hask : Asks (ins n) a)
    (ha : isRam a = true) (hs : c.state = .idle) (hp : Present P c (P.lines.lineOf a)) :
    c.hit P (ins n) = true := by
  obtain ⟨i, hi, hv, ht⟩ := hp
  obtain rfl := hask.addr
  have hvr : c.validRd i = true := (h.validRd hs i).trans hv
  have hway : wayHit P c (ins n) i = true := by
    have htag : c.tagRd i = reqTag P (ins n) := (h.read hs i hvr).1.trans ht
    rw [wayHit, hvr, htag, beq_self_eq_true]
    rfl
  have hc : cacheable (ins n) = true := ha
  rw [hit, lookup, hask.req, hc, hs, hitAny, anyIndex_iff.mpr ⟨i, hi, hway⟩]
  rfl

/-- What a cycle without a flush leaves present. -/
theorem Present.next {l : ℕ} (h : Present P c l) (hf : x.flush = false) (hs : c.state ≠ .fill) :
    Present P (c.next P x) l := by
  obtain ⟨i, hi, hv, ht⟩ := h
  have hl := fillLast_of_not_fill (P := P) (x := x) hs
  refine ⟨i, hi, ?_, ?_⟩
  · change nextValid P c x i _ = true
    rw [nextValid, hf, hl]
    exact hv
  · rw [tag_next hl]
    exact ht

/-- **A fill that no flush has overtaken leaves its line present.** -/
theorem present_of_fillLast (hway : c.fillWay < P.numWays) (hd : c.fillDead = false)
    (hf : x.flush = false) (hl : fillLast P c x = true) :
    Present P (c.next P x) c.fillLine := by
  obtain ⟨-, -, -, -, htag⟩ := fillLast_facts hl
  refine ⟨c.fillWay, hway, ?_, ?_⟩
  · change nextValid P c x c.fillWay (c.fillSet P) = true
    rw [nextValid, hf, if_neg Bool.false_ne_true, hl, hd, Bool.not_false, Bool.true_and,
      if_pos rfl, update2_self]
  · rw [htag]
    exact update2_self ..

/-- **The line is on its way**: a fill that no flush has overtaken brings it, or it has come. -/
inductive OnItsWay (P : IcacheParams) (c : Icache) (l : ℕ) : Prop
  | filling (state : c.state = .fill) (line : c.fillLine = l) (live : c.fillDead = false)
  | present (state : c.state = .refill ∨ c.state = .idle) (present : Present P c l)

/-- A miss sends for the line. -/
theorem onItsWay_of_miss {a : Word} (hask : Asks x a) (hm : miss P c x = true) :
    OnItsWay P (c.next P x) (P.lines.lineOf a) := by
  obtain rfl := hask.addr
  have hs : c.state = .idle := by
    simp only [miss, lookup, Bool.and_eq_true, beq_iff_eq] at hm
    exact hm.1.2
  refine .filling ?_ (if_pos hm) (if_pos hm)
  rw [state_next, nextState, hs]
  exact if_pos hm

/-- **Step.** It stays on its way until the fetch hits. -/
theorem Inv.onItsWay_next (h : Inv P c0 ins mem n c) {a : Word} (hask : Asks (ins n) a)
    (ha : isRam a = true) (hh : c.hit P (ins n) = false) (hp : OnItsWay P c (P.lines.lineOf a)) :
    OnItsWay P (c.next P (ins n)) (P.lines.lineOf a) := by
  have hstate := state_next (P := P) (c := c) (x := ins n)
  rw [nextState] at hstate
  rcases hp with ⟨hs, hline, hd⟩ | ⟨hs | hs, hp⟩
  · obtain ⟨hline', -, -, hd'⟩ := fill_registers (P := P) (x := ins n) hs
    rw [hs] at hstate
    dsimp only at hstate
    by_cases hl : fillLast P c (ins n) = true
    · rw [if_pos hl] at hstate
      have hp := present_of_fillLast (h.filling hs).way hd hask.flush hl
      rw [hline] at hp
      exact .present (.inl hstate) hp
    · rw [if_neg hl] at hstate
      refine .filling hstate (hline'.trans hline) ?_
      rw [hd', hd, hask.flush]
      rfl
  · rw [hs] at hstate
    exact .present (.inr hstate) (hp.next hask.flush (by rw [hs]; decide))
  · -- Here the lookup would have hit.
    have hhit := h.hit_of_present hask ha hs hp
    exact absurd (hh.symm.trans hhit) Bool.false_ne_true

/-- A cacheable fetch that is held hits in the end. -/
theorem exists_hit (hinv : ∀ n, Inv P c0 ins mem n (run P c0 ins n)) (hh : Heard P c0 ins n0)
    {a : Word} (ha : isRam a = true) (hheld : ∀ n ≥ n0, Asks (ins n) a) :
    ∃ n ≥ n0, (run P c0 ins n).hit P (ins n) = true := by
  by_contra hnone
  have hno : ∀ n ≥ n0, (run P c0 ins n).hit P (ins n) = false :=
    fun n hn => Bool.eq_false_of_not_eq_true fun hhit => hnone ⟨n, hn, hhit⟩
  -- The first lookup misses, which brings the line.
  obtain ⟨n, hn, hs⟩ := exists_idle hinv hh le_rfl
  have hm : miss P (run P c0 ins n) (ins n) = true := by
    have hc : cacheable (ins n) = true := by rw [cacheable, (hheld n hn).addr, ha]
    have hlook : lookup (run P c0 ins n) (ins n) = true := by
      rw [lookup, (hheld n hn).req, hc, hs]
      rfl
    have hhit := hno n hn
    rw [hit, hlook, Bool.true_and] at hhit
    rw [miss, hlook, hhit]
    rfl
  have hway : ∀ m ≥ n + 1, OnItsWay P (run P c0 ins m) (P.lines.lineOf a) := by
    intro m hm'
    induction m, hm' using Nat.le_induction with
    | base => exact onItsWay_of_miss (hheld n hn) hm
    | succ m hm' ih =>
      exact (hinv m).onItsWay_next (hheld m (by omega)) ha (hno m (by omega)) ih
  -- So the next lookup hits.
  obtain ⟨m, hm', hs'⟩ := exists_idle (n := n + 1) hinv hh (by omega)
  rcases hway m hm' with ⟨hs, -, -⟩ | ⟨-, hp⟩
  · exact absurd (hs'.symm.trans hs) (by decide)
  · have hhit := (hinv m).hit_of_present (hheld m (by omega)) ha hs' hp
    exact Bool.false_ne_true ((hno m (by omega)).symm.trans hhit)

/-! ## An uncached fetch -/

/-- An uncached fetch that is held is granted in the end. -/
theorem exists_bypass (hinv : ∀ n, Inv P c0 ins mem n (run P c0 ins n)) (hh : Heard P c0 ins n0)
    {a : Word} (ha : isRam a = false) (hheld : ∀ n ≥ n0, Asks (ins n) a) :
    ∃ n ≥ n0, (run P c0 ins n).gnt P (ins n) = true := by
  by_contra hnone
  have hno : ∀ n ≥ n0, (run P c0 ins n).gnt P (ins n) = false :=
    fun n hn => Bool.eq_false_of_not_eq_true fun hg => hnone ⟨n, hn, hg⟩
  have hc : ∀ n ≥ n0, cacheable (ins n) = false := by
    intro n hn
    rw [cacheable, (hheld n hn).addr, ha]
  have hby : ∀ n ≥ n0, (run P c0 ins n).state = .idle →
      bypassReq (run P c0 ins n) (ins n) = true := by
    intro n hn hs
    rw [bypassReq, (hheld n hn).req, hc n hn, hs]
    rfl
  have hgnt : ∀ n ≥ n0, (run P c0 ins n).state = .idle → (ins n).memGnt = false := by
    intro n hn hs
    have hg := hno n hn
    rw [gnt, hby n hn hs, Bool.or_eq_false_iff] at hg
    exact hg.2
  -- An idle cache goes on presenting the fetch.
  obtain ⟨n, hn, hs⟩ := exists_idle hinv hh le_rfl
  have hidle : ∀ m ≥ n, (run P c0 ins m).state = .idle := by
    intro m hm
    induction m, hm using Nat.le_induction with
    | base => exact hs
    | succ m hm ih =>
      have hmiss : miss P (run P c0 ins m) (ins m) = false := by
        simp [miss, lookup, hc m (by omega)]
      rw [run_succ, state_next, nextState, ih]
      dsimp only
      rw [hmiss, hgnt m (by omega) ih, Bool.and_false, Bool.false_and, if_neg Bool.false_ne_true,
        if_neg Bool.false_ne_true]
  obtain ⟨m, hm, hg⟩ := hh.grants n hn (hby n hn hs)
  exact Bool.false_ne_true ((hgnt m (by omega) (hidle m hm)).symm.trans hg)

/-- While a granted fetch waits, no other is granted. -/
theorem gnt_of_bypass (hs : c.state = .bypass) :
    c.gnt P x = false ∧ c.rvalid P x = x.memRvalid := by
  simp [gnt, rvalid, hit, lookup, bypassReq, hs]

/-- **What is granted is answered**, with the word of its own address. -/
theorem answered_of_gnt (hh : Heard P c0 ins n0) (hn : n0 ≤ n)
    (hg : (run P c0 ins n).gnt P (ins n) = true) :
    ∃ m ≥ n, answered P c0 ins m = some (ins n).addr := by
  by_cases hrv : (run P c0 ins n).rvalid P (ins n) = true
  · exact ⟨n, le_rfl, by rw [answered, if_pos hrv, if_pos hg]⟩
  -- A grant without an answer is that of an uncached fetch, which then waits.
  have hhit : (run P c0 ins n).hit P (ins n) = false := by
    rw [rvalid, Bool.or_eq_true, not_or] at hrv
    exact Bool.eq_false_of_not_eq_true hrv.1
  have hrv := Bool.eq_false_of_not_eq_true hrv
  have hby := hg
  rw [gnt, hhit, Bool.false_or, Bool.and_eq_true] at hby
  obtain ⟨hby, hmg⟩ := hby
  have hmv : (ins n).memRvalid = false := by
    rw [rvalid, hhit, hby, Bool.false_or, Bool.true_or, Bool.and_true] at hrv
    exact hrv
  have hstart : (run P c0 ins (n + 1)).state = .bypass := by
    simp only [bypassReq, Bool.and_eq_true, beq_iff_eq, Bool.not_eq_true'] at hby
    have hmiss : miss P (run P c0 ins n) (ins n) = false := by
      simp [miss, lookup, hby.1.2]
    rw [run_succ, state_next, nextState, hby.2]
    dsimp only
    rw [hmiss, if_neg Bool.false_ne_true, hmg, hmv, bypassReq, hby.1.1, hby.1.2, hby.2]
    rfl
  by_contra hnone
  have hwait : ∀ m ≥ n + 1, (run P c0 ins m).state = .bypass ∧
      outstanding P c0 ins m = some (ins n).addr := by
    intro m hm
    induction m, hm using Nat.le_induction with
    | base =>
      refine ⟨hstart, ?_⟩
      rw [outstanding, hrv, if_neg Bool.false_ne_true, if_pos hg]
    | succ m hm ih =>
      obtain ⟨hs, hout⟩ := ih
      obtain ⟨hgm, hrvm⟩ := gnt_of_bypass (P := P) (x := ins m) hs
      -- An answer in cycle `m` would be to this fetch.
      have hno : (ins m).memRvalid = false := by
        by_contra hv
        refine hnone ⟨m, by omega, ?_⟩
        rw [answered, hrvm, if_pos (Bool.eq_true_of_not_eq_false hv), hgm,
          if_neg Bool.false_ne_true, hout]
      constructor
      · rw [run_succ, state_next, nextState, hs]
        dsimp only
        rw [hno, if_neg Bool.false_ne_true]
      · rw [outstanding, hrvm, hno, if_neg Bool.false_ne_true, hgm, if_neg Bool.false_ne_true, hout]
  obtain ⟨m, hm, hv⟩ := hh.answers (n + 1) (by omega) (.inr hstart)
  obtain ⟨hs, hout⟩ := hwait m hm
  obtain ⟨hgm, hrvm⟩ := gnt_of_bypass (P := P) (x := ins m) hs
  refine hnone ⟨m, by omega, ?_⟩
  rw [answered, hrvm, if_pos hv, hgm, if_neg Bool.false_ne_true, hout]

/-- **A fetch that goes on being asked for is answered.** -/
theorem exists_rvalid (hinv : ∀ n, Inv P c0 ins mem n (run P c0 ins n)) (hh : Heard P c0 ins n0)
    {a : Word} (hheld : ∀ n ≥ n0, Asks (ins n) a) :
    ∃ n ≥ n0, (run P c0 ins n).rvalid P (ins n) = true := by
  cases ha : isRam a
  · obtain ⟨n, hn, hg⟩ := exists_bypass hinv hh ha hheld
    obtain ⟨m, hm, hans⟩ := answered_of_gnt hh hn hg
    refine ⟨m, hn.trans hm, ?_⟩
    by_contra hv
    rw [answered, if_neg hv] at hans
    cases hans
  · obtain ⟨n, hn, hhit⟩ := exists_hit hinv hh ha hheld
    exact ⟨n, hn, by rw [rvalid, hhit, Bool.true_or]⟩

/-! ## Whole runs -/

/-- **A fetch misses at most once** until it hits: behind its miss the line is on its way, and a
lookup that finds it there hits. -/
theorem not_miss_of_miss (hinv : ∀ n, Inv P c0 ins mem n (run P c0 ins n)) {a : Word} {k k' : ℕ}
    (hask : ∀ j, k ≤ j → j ≤ k' → Asks (ins j) a)
    (hno : ∀ j, k < j → j < k' → (run P c0 ins j).hit P (ins j) = false) (hlt : k < k')
    (hm : miss P (run P c0 ins k) (ins k) = true) :
    miss P (run P c0 ins k') (ins k') = false := by
  have ha : isRam a = true := by
    simp only [miss, lookup, Bool.and_eq_true] at hm
    rw [← (hask k le_rfl hlt.le).addr]
    exact hm.1.1.2
  have hway : ∀ j, k + 1 ≤ j → j ≤ k' → OnItsWay P (run P c0 ins j) (P.lines.lineOf a) := by
    intro j hj
    induction j, hj using Nat.le_induction with
    | base => exact fun _ => onItsWay_of_miss (hask k le_rfl hlt.le) hm
    | succ j hj ih =>
      intro hjk
      exact (hinv j).onItsWay_next (hask j (by omega) (by omega)) ha (hno j hj hjk)
        (ih (by omega))
  cases hs : (run P c0 ins k').state
  case idle =>
    rcases hway k' hlt le_rfl with ⟨hfill, -, -⟩ | ⟨-, hp⟩
    · exact absurd (hs.symm.trans hfill) (by decide)
    · have hhit := (hinv k').hit_of_present (hask k' hlt.le le_rfl) ha hs hp
      rw [hit, Bool.and_eq_true] at hhit
      rw [miss, hhit.2, Bool.not_true, Bool.and_false]
  all_goals simp [miss, lookup, hs]

/-- An uncached fetch is answered with what the memory answers. -/
theorem rdata_of_answered {a : Word} {m : ℕ} (h : answered P c0 ins m = some a)
    (ha : isRam a = false) :
    (ins m).memRvalid = true ∧ (run P c0 ins m).rdata P (ins m) = (ins m).memRdata := by
  have hhit : (run P c0 ins m).hit P (ins m) = false := by
    by_contra hne
    have hhit := Bool.eq_true_of_not_eq_false hne
    have hg : (run P c0 ins m).gnt P (ins m) = true := by rw [gnt, hhit, Bool.true_or]
    have hr : (run P c0 ins m).rvalid P (ins m) = true := by rw [rvalid, hhit, Bool.true_or]
    rw [answered, if_pos hr, if_pos hg] at h
    obtain rfl := Option.some.inj h
    have hc : cacheable (ins m) = false := ha
    rw [hit, lookup, hc, Bool.and_false, Bool.false_and] at hhit
    exact Bool.false_ne_true hhit
  have hrv : (run P c0 ins m).rvalid P (ins m) = true := by
    by_contra hne
    rw [answered, if_neg hne] at h
    cases h
  rw [rvalid, hhit, Bool.false_or, Bool.and_eq_true] at hrv
  refine ⟨hrv.1, ?_⟩
  rw [rdata, hhit, if_neg Bool.false_ne_true]

/-- **Every fetch is granted and answered**, in every run from reset. From any cycle on, and
whatever the cache is doing there, a fetch that is held until its grant is granted, if no flush
comes meanwhile, and misses at most once before. If it is cacheable a hit grants it, and its
answer is a word that memory held at its address behind the last flush; if not, its answer is the
memory's. -/
theorem fetch_answered (P : IcacheParams) (data : ℕ → ℕ → Word) (tag : ℕ → ℕ → ℕ)
    (dataRd : ℕ → Word) (tagRd : ℕ → ℕ) (ins : ℕ → IcacheIn) (mem : History) (n0 : ℕ) (a : Word)
    (hserved : Served P (reset data tag dataRd tagRd) ins mem)
    (hh : Heard P (reset data tag dataRd tagRd) ins n0)
    (hheld : ∀ n ≥ n0, (∀ k, n0 ≤ k → k < n →
      (run P (reset data tag dataRd tagRd) ins k).gnt P (ins k) = false) → Asks (ins n) a) :
    ∃ n ≥ n0, (run P (reset data tag dataRd tagRd) ins n).gnt P (ins n) = true ∧
      (ins n).addr = a ∧
      (isRam a = true → (run P (reset data tag dataRd tagRd) ins n).hit P (ins n) = true) ∧
      (∀ k k', n0 ≤ k → k < k' → k' ≤ n →
        miss P (run P (reset data tag dataRd tagRd) ins k) (ins k) = true →
        miss P (run P (reset data tag dataRd tagRd) ins k') (ins k') = false) ∧
      ∃ m ≥ n, answered P (reset data tag dataRd tagRd) ins m = some a ∧
        (isRam a = true → Fresh ins mem m (DcacheParams.wordAddr a)
          ((run P (reset data tag dataRd tagRd) ins m).rdata P (ins m))) ∧
        (isRam a = false → (ins m).memRvalid = true ∧
          (run P (reset data tag dataRd tagRd) ins m).rdata P (ins m) = (ins m).memRdata) := by
  have hinv := inv_run (inv_reset data tag dataRd tagRd) hserved
  -- The first grant is to this fetch.
  have hex : ∃ n, n0 ≤ n ∧ (run P (reset data tag dataRd tagRd) ins n).gnt P (ins n) = true := by
    by_contra hnone
    have hno : ∀ n ≥ n0, (run P (reset data tag dataRd tagRd) ins n).gnt P (ins n) = false :=
      fun n hn => Bool.eq_false_of_not_eq_true fun hg => hnone ⟨n, hn, hg⟩
    have hall : ∀ n ≥ n0, Asks (ins n) a := fun n hn => hheld n hn fun k hk _ => hno k hk
    cases ha : isRam a
    · obtain ⟨n, hn, hg⟩ := exists_bypass hinv hh ha hall
      exact hnone ⟨n, hn, hg⟩
    · obtain ⟨n, hn, hhit⟩ := exists_hit hinv hh ha hall
      exact hnone ⟨n, hn, by rw [gnt, hhit, Bool.true_or]⟩
  classical
  obtain ⟨hn, hg⟩ := Nat.find_spec hex
  have hno : ∀ k, n0 ≤ k → k < Nat.find hex →
      (run P (reset data tag dataRd tagRd) ins k).gnt P (ins k) = false := by
    intro k hk hlt
    have hmin := Nat.find_min hex hlt
    exact Bool.eq_false_of_not_eq_true fun hgk => hmin ⟨hk, hgk⟩
  have hask : ∀ k, n0 ≤ k → k ≤ Nat.find hex → Asks (ins k) a :=
    fun k hk hle => hheld k hk fun j hj hjk => hno j hj (by omega)
  have haddr : (ins (Nat.find hex)).addr = a := (hask _ hn le_rfl).addr
  obtain ⟨m, hm, hans⟩ := answered_of_gnt hh hn hg
  rw [haddr] at hans
  refine ⟨Nat.find hex, hn, hg, haddr, ?_, ?_, m, hm, hans, ?_, rdata_of_answered hans⟩
  · exact fun ha => hit_of_gnt hg (by rw [cacheable, haddr, ha])
  · intro k k' hk hlt hle
    refine not_miss_of_miss hinv (fun j hj hj' => hask j (by omega) (by omega)) ?_ hlt
    intro j hj hj'
    have hgj := hno j (by omega) (by omega)
    rw [gnt, Bool.or_eq_false_iff] at hgj
    exact hgj.1
  · intro ha
    obtain ⟨hhit, rfl⟩ := hit_of_answered hans ha
    exact (hinv m).fresh_of_hit hhit

/-- A RAM of sevens that answers in every third cycle. -/
def slowFetch (n : ℕ) : IcacheIn where
  flush := false
  nextPc := 0x80000004#32
  req := true
  addr := 0x80000004#32
  memGnt := true
  memRvalid := n % 3 == 0
  memRdata := 7#32

/-- A cold cache of three ways behind a memory that is slow to answer. -/
theorem fetch_answered_slowFetch :
    miss threeWays (run threeWays zeroReset slowFetch 0) (slowFetch 0) = true ∧
      ∃ m, answered threeWays zeroReset slowFetch m = some 0x80000004#32 ∧
        Fresh slowFetch (fun _ _ => 7#32) m (DcacheParams.wordAddr 0x80000004#32)
          ((run threeWays zeroReset slowFetch m).rdata threeWays (slowFetch m)) := by
  have hanswer : ∀ n, ∃ m ≥ n, (slowFetch m).memRvalid = true := by
    intro n
    refine ⟨3 * n, by omega, ?_⟩
    change (3 * n % 3 == 0) = true
    rw [Nat.mul_mod_right]
    rfl
  have hserved : Served threeWays zeroReset slowFetch fun _ _ => 7#32 := by
    refine ⟨fun _ => rfl, fun n a hreq _ => ⟨n, le_rfl, fun j hj hjn => ?_, rfl⟩⟩
    obtain rfl := Nat.le_antisymm hj hjn
    exact hreq
  have hh : Heard threeWays zeroReset slowFetch 0 :=
    ⟨fun n _ _ => ⟨n, le_rfl, rfl⟩, fun n _ _ => hanswer n⟩
  obtain ⟨-, -, -, -, -, -, m, -, hans, hfresh, -⟩ := fetch_answered threeWays _ _ _ _ slowFetch
    (fun _ _ => 7#32) 0 0x80000004#32 hserved hh fun _ _ _ => ⟨rfl, rfl, rfl⟩
  exact ⟨by decide +kernel, m, hans, hfresh (by decide)⟩

end Icache

end Synapse32
