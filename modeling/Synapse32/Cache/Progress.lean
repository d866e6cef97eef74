import Synapse32.Cache.Cleaning

/-! # Every request is answered

A request that is held at the data cache is granted and answered, whatever the engine is doing and
whether or not it is told to clean: the MSHR of its line retires, or the MSHRs run out and the
request is looked up, or it is for a device and finds the engine idle. Only the memory is waited
for. -/

namespace Synapse32

variable {P : DcacheParams}

/-! ## The way to the next retirement -/

/-- The cycles that the engine has left with taking a line out, the memory answering at once. -/
def Engine.evictWork (P : DcacheParams) (e : Engine) : ℕ :=
  match e.state with
  | .evictWrite => P.words - e.word
  | .evictRead => P.words + 1 + (P.words + 1 - e.word)
  | .victim => 2 * P.words + 3
  | .tag => 2 * P.words + 4
  | _ => 0

/-- The cycles until an MSHR retires. A line that is being cleaned is written back before. -/
def Engine.retireWork (P : DcacheParams) (e : Engine) : ℕ :=
  match e.state with
  | .fill => P.words - e.word
  | .idle => 3 * P.words + 5
  | .scan | .bypass => 3 * P.words + 6
  | _ => (if e.clean then 3 * P.words + 6 else P.words) + e.evictWork P

/-- An access to `a` is asked for in a cycle. -/
structure DcacheReq.Asks (r : DcacheReq) (a : Word) : Prop where
  req : r.req = true
  addr : r.addr = a

namespace Dcache

variable {d : Dcache} {r : DcacheReq} {m : MemRsp} {ram : Ram}

/-- The engine waits, or gets on with taking the line out, or is through with it. -/
theorem evictWork_next (h : Inv P d ram)
    (hs : d.eng.state = .tag ∨ d.eng.state = .victim ∨ d.eng.Evicting) :
    (d.eng.state = .evictWrite ∧ m.rvalid = false ∧ nextEng P d r m = d.eng) ∨
      (nextEng P d r m).evictWork P < d.eng.evictWork P ∧
        (nextEng P d r m).clean = d.eng.clean ∧
        ((nextEng P d r m).state = .victim ∨ (nextEng P d r m).Evicting ∨
          (nextEng P d r m).state = (if d.eng.clean then .scan else .fill) ∧
            (nextEng P d r m).word = 0) := by
  have hpos := P.words_pos
  rcases hs with hs | hs | hs | hs
  · right
    have heng : nextEng P d r m = { d.eng with state := .victim } := by simp only [nextEng, hs]
    rw [heng]
    refine ⟨?_, rfl, .inl rfl⟩
    simp only [Engine.evictWork, hs]
    omega
  · right
    cases hd : victimDirty P d
    · have hstate : (nextEng P d r m).state = if d.eng.clean then .scan else .fill := by
        simp [nextEng, hs, hd]
      have hword : (nextEng P d r m).word = 0 := by simp [nextEng, hs]
      refine ⟨?_, by simp [nextEng, hs], .inr (.inr ⟨hstate, hword⟩)⟩
      simp only [Engine.evictWork, hs]
      rw [hstate]
      cases d.eng.clean <;> simp
    · have hstate : (nextEng P d r m).state = .evictRead := by simp [nextEng, hs, hd]
      have hword : (nextEng P d r m).word = 0 := by simp [nextEng, hs]
      refine ⟨?_, by simp [nextEng, hs], .inr (.inl (.inl hstate))⟩
      simp only [Engine.evictWork, hs, hstate, hword]
      omega
  · right
    have hw := h.eng.read_word hs
    rw [nextEng_of_evictRead hs]
    rcases evictReadStep_cases (P := P) (e := d.eng) (v := d.rd.data d.eng.way) with
      ⟨hlast, hst, hword⟩ | ⟨hne, hst, hword⟩
    · refine ⟨?_, by simp [Engine.evictReadStep, hlast], .inr (.inl (.inr hst))⟩
      simp only [Engine.evictWork, hs, hst, hword]
      omega
    · refine ⟨?_, by simp [Engine.evictReadStep, hne], .inr (.inl (.inl (hst.trans hs)))⟩
      simp only [Engine.evictWork, hs, hst, hword]
      omega
  · have hw := h.eng.write_word hs
    have hidx : engWordIndex P d = d.eng.word := Nat.mod_eq_of_lt hw
    cases hrv : m.rvalid
    · left
      exact ⟨hs, rfl, by simp [nextEng, hs, hrv]⟩
    · right
      -- The last word sends the engine on, to the fill or back to the scan.
      by_cases hlast : d.eng.word = P.words - 1
      · have heng : nextEng P d r m =
            { d.eng with state := if d.eng.clean then .scan else .fill, word := 0 } := by
          simp [nextEng, hs, hrv, hidx, hlast]
        rw [heng]
        refine ⟨?_, rfl, .inr (.inr ⟨rfl, rfl⟩)⟩
        simp only [Engine.evictWork, hs]
        cases d.eng.clean <;> simp <;> omega
      · have heng : nextEng P d r m = { d.eng with word := d.eng.word + 1 } := by
          simp [nextEng, hs, hrv, hidx, hlast]
        rw [heng]
        refine ⟨?_, rfl, .inr (.inl (.inr hs))⟩
        simp only [Engine.evictWork, hs]
        omega

/-- While an MSHR waits, a cycle retires one, brings the next retirement closer, or waits for the
memory. -/
theorem retireWork_next (h : Inv P d ram) (hne : d.lines.mshr ≠ []) :
    fillLast P d m = true ∨ (nextEng P d r m).retireWork P < d.eng.retireWork P ∨
      (Waits d ∧ m.rvalid = false ∧ nextEng P d r m = d.eng) := by
  have hpos := P.words_pos
  have hsome : mshrEmpty d = false := Bool.eq_false_of_not_eq_true fun h => hne (mshrEmpty_iff.mp h)
  by_cases hev : d.eng.state = .tag ∨ d.eng.state = .victim ∨ d.eng.Evicting
  · rcases evictWork_next (r := r) (m := m) h hev with ⟨hs, hrv, heq⟩ | ⟨hlt, hclean, hnext⟩
    · exact .inr (.inr ⟨.inl hs, hrv, heq⟩)
    · have hwork : d.eng.retireWork P =
          (if d.eng.clean then 3 * P.words + 6 else P.words) + d.eng.evictWork P := by
        rcases hev with hs | hs | hs | hs <;> simp only [Engine.retireWork, hs]
      rw [hwork]
      right
      left
      rcases hnext with hs | (hs | hs) | ⟨hs, hw⟩
      · simp only [Engine.retireWork, hs, hclean]
        omega
      · simp only [Engine.retireWork, hs, hclean]
        omega
      · simp only [Engine.retireWork, hs, hclean]
        omega
      · cases hc : d.eng.clean
        · rw [hc, if_neg Bool.false_ne_true] at hs
          simp only [Engine.retireWork, hs, hw, Bool.false_eq_true, if_false]
          omega
        · rw [hc, if_pos rfl] at hs
          simp only [Engine.retireWork, hs, if_true]
          omega
  · cases hs : d.eng.state with
    | tag => exact absurd (.inl hs) hev
    | victim => exact absurd (.inr (.inl hs)) hev
    | evictRead => exact absurd (.inr (.inr (.inl hs))) hev
    | evictWrite => exact absurd (.inr (.inr (.inr hs))) hev
    | idle =>
      have hgo : bypassGo d r = false := by simp [bypassGo, hsome]
      have heng : nextEng P d r m =
          { d.eng with state := .tag, clean := false, set := P.setOf (head d).line } := by
        simp [nextEng, hs, hgo, hsome]
      right
      left
      rw [heng]
      simp only [Engine.retireWork, Engine.evictWork, hs, Bool.false_eq_true, if_false]
      omega
    | scan =>
      have heng : nextEng P d r m = { d.eng with state := .idle } := by simp [nextEng, hs, hsome]
      right
      left
      rw [heng]
      simp only [Engine.retireWork, hs]
      omega
    | bypass =>
      cases hrv : m.rvalid
      · exact .inr (.inr ⟨.inr (.inr hs), rfl, by simp [nextEng, hs, hrv]⟩)
      · have heng : nextEng P d r m = { d.eng with state := .idle } := by simp [nextEng, hs, hrv]
        right
        left
        rw [heng]
        simp only [Engine.retireWork, hs]
        omega
    | fill =>
      have hw := h.eng.fill_word hs
      cases hl : fillLast P d m
      · cases hrv : m.rvalid
        · have hf : fillWrite d m = false := by simp [fillWrite, hrv]
          exact .inr (.inr ⟨.inr (.inl hs), rfl, by simp [nextEng, hs, hl, hf]⟩)
        · have hf : fillWrite d m = true := by simp [fillWrite, hs, hrv]
          have heng : nextEng P d r m = { d.eng with word := d.eng.word + 1 } := by
            simp [nextEng, hs, hl, hf]
          right
          left
          rw [heng]
          simp only [Engine.retireWork, hs]
          omega
      · exact .inl rfl

/-! ## The waiting lines -/

/-- The last write of a fill is one. -/
theorem fillWrite_of_fillLast (h : fillLast P d m = true) : fillWrite d m = true := by
  simp only [fillLast, Bool.and_eq_true] at h
  exact h.1

/-- An allocation adds the line of the request at the end; a retirement takes the first line
away. -/
theorem waiting_step : (next P d r m).lines.waiting =
    if alloc P d r m then d.lines.waiting ++ [P.lineOf r.addr]
    else if fillLast P d m then d.lines.waiting.tail
    else d.lines.waiting := by
  have hline : ∀ e, (mergeStore P r e).line = e.line := by
    intro e
    unfold mergeStore
    split <;> rfl
  change (nextMshr P d r m).map Mshr.line = _
  unfold nextMshr
  cases ha : alloc P d r m
  · cases hm : storeMerge P d r m
    · cases hl : fillLast P d m
      · rfl
      · simp [Lines.waiting]
    · -- A word that lands blocks the lookup.
      have hl : fillLast P d m = false := by
        by_contra hl
        have hf := fillWrite_of_fillLast (Bool.eq_true_of_not_eq_false hl)
        have hno := (served_of_no_lookup (lookup_of_block (P := P) (r := r) (.inr hf))).2.1
        exact Bool.false_ne_true (hno.symm.trans hm)
      rw [hl]
      exact map_line_modify _ hline _ _
  · simp [Lines.waiting, hline]

/-- What retires is the first of the waiting lines. -/
theorem waiting_of_fillLast (h : Inv P d ram) (hl : fillLast P d m = true) :
    alloc P d r m = false ∧ d.lines.waiting = (head d).line :: d.lines.waiting.tail := by
  have hf := fillWrite_of_fillLast hl
  obtain ⟨-, -, hs, hld⟩ := served_of_no_lookup (lookup_of_block (P := P) (r := r) (.inr hf))
  refine ⟨by rw [alloc, hs, hld]; rfl, ?_⟩
  have hhead := head_of_fill h (state_of_fillWrite hf)
  rw [Lines.waiting, mshr_eq_cons hhead]
  rfl

/-! ## Lookups -/

/-- A request that is looked up and whose line is held is served. -/
theorem served_of_holds (hr : RowsFresh P d) (hl : lookup P d r m = true) {i : ℕ}
    (hold : d.lines.Holds P (P.lineOf r.addr) i) : served P d r m = true := by
  have hany : hitAny P d r = true :=
    anyIndex_iff.mpr ⟨i, hold.1, (wayHit_iff hr hl hold.1).mpr hold⟩
  cases hwe : r.we <;> simp [served, storeHit, loadHit, hl, hany, hwe]

/-- A request that is looked up while nothing waits is served or gets an MSHR. -/
theorem served_or_alloc (hl : lookup P d r m = true) (he : d.lines.waiting = []) :
    served P d r m = true ∨ alloc P d r m = true := by
  have hmshr : d.lines.mshr = [] := List.map_eq_nil_iff.mp he
  have hmatch : matchAny P d r = false := by
    by_contra hm
    obtain ⟨e, hget, -⟩ := match_spec (Bool.eq_true_of_not_eq_false hm)
    rw [hmshr] at hget
    exact Option.some_ne_none e hget.symm
  have hfull : mshrFull P d = false := by
    have hpos := P.numMshr_pos
    rw [mshrFull, hmshr, beq_eq_false_iff_ne, List.length_nil]
    omega
  cases hwe : r.we <;> cases hh : hitAny P d r <;>
    simp [served, alloc, storeHit, storeAlloc, loadHit, loadAlloc, hl, hwe, hh, hmatch, hfull]

/-- A line that has been filled is held. -/
theorem holds_of_fillLast (h : Inv P d ram) (hl : fillLast P d m = true) :
    (next P d r m).lines.Holds P (head d).line d.eng.way := by
  have hs := state_of_fillWrite (fillWrite_of_fillLast hl)
  have hset := h.eng.setOf_head hs (head_of_fill h hs)
  rw [next_lines_of_fillLast hl (h.eng.fill_word hs)]
  refine ⟨h.eng.way_lt (.inr hs), ?_, ?_⟩
  · rw [← hset]
    exact update2_self _ _ _ _
  · rw [← hset]
    exact update2_self _ _ _ _

/-- **A request that has to wait is looked up in the next cycle**, unless the engine needs the
arrays. -/
theorem lookup_next (hreq : r.req = true) (hc : cacheable r = true)
    (hs : d.eng.state = .idle ∨ d.eng.state = .scan ∨ d.eng.state = .evictWrite)
    (hl : lookup P d r m = false) {r' : DcacheReq} {m' : MemRsp} (hreq' : r'.req = true)
    (haddr : r'.addr = r.addr) (hb : lookupBlock (next P d r m) m' = false) :
    lookup P (next P d r m) r' m' = true := by
  have hread : readIndex P d r m = P.index r.addr := by
    have htag : claimTag d = false := by rcases hs with hs | hs | hs <;> simp [claimTag, hs]
    have hev : claimEvict P d = false := by rcases hs with hs | hs | hs <;> simp [claimEvict, hs]
    simp [readIndex, htag, hev, hreq, hc, hl]
  have hstale : readStale P d r m = false := by
    have hfw : fillWrite d m = false := by rcases hs with hs | hs | hs <;> simp [fillWrite, hs]
    have hv : (d.eng.state == .victim) = false := by rcases hs with hs | hs | hs <;> simp [hs]
    simp [readStale, dataWrite, setChange, fillLast, storeHit, hfw, hv, hl]
  have hindex : (next P d r m).rd.index = P.index r'.addr := by rw [haddr]; exact hread
  have hfresh : (next P d r m).rd.fresh = true := by
    change (!readStale P d r m) = true
    rw [hstale]
    rfl
  have hc' : cacheable r' = true := by rwa [cacheable, haddr]
  simp [lookup, hreq', hc', hb, hfresh, hindex]

/-- Only VICTIM, BYPASS and FILL keep the lookup from answering. -/
theorem lookupBlock_eq_false (hv : d.eng.state ≠ .victim) (hby : d.eng.state ≠ .bypass)
    (hf : d.eng.state ≠ .fill) : lookupBlock d m = false := by
  simp [lookupBlock, fillWrite, hv, hby, hf]

/-- A cacheable request keeps no bypass from going, and an idle engine turns to nothing that blocks
a lookup. -/
theorem lookupBlock_of_idle (hs : d.eng.state = .idle) (hc : cacheable r = true) {m' : MemRsp} :
    lookupBlock (next P d r m) m' = false := by
  have hgo : bypassGo d r = false := by simp [bypassGo, hc]
  have hstate : (nextEng P d r m).state = .idle ∨ (nextEng P d r m).state = .tag ∨
      (nextEng P d r m).state = .scan := by
    rw [nextEng_of_idle hs, hgo, if_neg Bool.false_ne_true]
    split_ifs <;> simp [hs]
  rcases hstate with h | h | h <;>
    exact lookupBlock_eq_false (fun hx => by cases h.symm.trans hx)
      (fun hx => by cases h.symm.trans hx) (fun hx => by cases h.symm.trans hx)

/-- A cycle without a lookup leaves the arrays and a busy engine as a silent one does. -/
theorem next_of_no_lookup (hl : lookup P d r m = false) (hs : d.eng.state ≠ .idle)
    (hscan : d.eng.state = .scan → r.cleanReq = true) :
    (next P d r m).lines = (next P d { r with req := false, cleanReq := true } m).lines ∧
      (next P d r m).eng = (next P d { r with req := false, cleanReq := true } m).eng := by
  have hl' : lookup P d { r with req := false, cleanReq := true } m = false := by simp [lookup]
  constructor
  · change (⟨nextData P d r m, nextTag P d m, nextValid P d m, nextDirty P d r m,
      nextMshr P d r m⟩ : Lines) = ⟨nextData P d _ m, nextTag P d m, nextValid P d m,
      nextDirty P d _ m, nextMshr P d _ m⟩
    have hdata : nextData P d r m = nextData P d { r with req := false, cleanReq := true } m := by
      cases hf : fillWrite d m <;>
        simp [nextData, dataWrite, storeHit, hl, hl', writeIndex, writeWay, writeBe, writeData, hf]
    simp [hdata, nextDirty, nextMshr, storeHit, storeMerge, alloc, storeAlloc, loadAlloc, hl, hl']
  · change nextEng P d r m = nextEng P d _ m
    unfold nextEng
    cases hst : d.eng.state with
    | idle => exact absurd hst hs
    | scan => simp [hscan hst]
    | _ => rfl

/-! ## Runs -/

/-- **A run of the cache whose memory answers** from cycle `n0` on: it answers whatever the engine
waits for, and takes a device access that stands. -/
structure Attended (P : DcacheParams) (d : ℕ → Dcache) (r : ℕ → DcacheReq) (m : ℕ → MemRsp)
    (n0 : ℕ) : Prop where
  step : ∀ n, d (n + 1) = Dcache.next P (d n) (r n) (m n)
  inv : ∀ n, ∃ ram, Inv P (d n) ram
  target : ∀ n, CleanTarget P (d n)
  answers : ∀ n ≥ n0, Waits (d n) → ∃ k ≥ n, (m k).rvalid = true
  accepts : ∀ n ≥ n0, (∀ k ≥ n, bypassGo (d k) (r k) = true) → ∃ k ≥ n, (m k).gnt = true

namespace Attended

variable {d : ℕ → Dcache} {r : ℕ → DcacheReq} {m : ℕ → MemRsp} {n0 n1 : ℕ}
  (h : Attended P d r m n0)
include h

/-- How the waiting lines change: one more at the end, the first one less, or as they were. -/
theorem waiting_succ (n : ℕ) : (d (n + 1)).lines.waiting =
    if alloc P (d n) (r n) (m n) then (d n).lines.waiting ++ [P.lineOf (r n).addr]
    else if fillLast P (d n) (m n) then (d n).lines.waiting.tail
    else (d n).lines.waiting := by
  rw [h.step n, waiting_step]

/-- A cycle without a retirement brings the next one closer, or waits. -/
theorem retireWork_succ {n : ℕ} (hne : (d n).lines.waiting ≠ [])
    (hl : fillLast P (d n) (m n) = false) :
    (d (n + 1)).eng.retireWork P < (d n).eng.retireWork P ∨
      (Waits (d n) ∧ ¬ (m n).rvalid = true ∧
        (d (n + 1)).eng.retireWork P = (d n).eng.retireWork P) := by
  obtain ⟨ram, hinv⟩ := h.inv n
  have hmshr : (d n).lines.mshr ≠ [] := fun he => hne (by rw [Lines.waiting, he]; rfl)
  have heng : (d (n + 1)).eng = nextEng P (d n) (r n) (m n) := by rw [h.step n]; rfl
  rw [heng]
  rcases retireWork_next (r := r n) (m := m n) hinv hmshr with hlast | hlt | ⟨hw, hrv, heq⟩
  · exact absurd (hl.symm.trans hlast) Bool.false_ne_true
  · exact .inl hlt
  · refine .inr ⟨hw, ?_, by rw [heq]⟩
    rw [hrv]
    exact Bool.false_ne_true

/-- **The MSHRs run out** where none is allocated any more. -/
theorem drains (hn : n0 ≤ n1) (hnew : ∀ n ≥ n1, alloc P (d n) (r n) (m n) = false) :
    ∃ n2 ≥ n1, ∀ n ≥ n2, (d n).lines.waiting = [] := by
  obtain ⟨n2, hn2, hempty⟩ : ∃ n ≥ n1, (d n).lines.waiting = [] := by
    apply Clocked.eventually_of_rank
      (fun n => toLex ((d n).lines.waiting.length, (d n).eng.retireWork P))
      (fun n => Waits (d n)) (fun n => (m n).rvalid = true)
    · intro n hn' hne
      have hw := h.waiting_succ n
      rw [hnew n hn', if_neg Bool.false_ne_true] at hw
      rw [Prod.Lex.toLex_lt_toLex, Prod.Lex.toLex_le_toLex, hw]
      cases hl : fillLast P (d n) (m n)
      · rw [if_neg Bool.false_ne_true]
        rcases h.retireWork_succ hne hl with hlt | ⟨hwt, hrv, heq⟩
        · exact .inl (.inr ⟨rfl, hlt⟩)
        · exact .inr ⟨hwt, hrv, .inr ⟨rfl, heq.le⟩⟩
      · rw [if_pos rfl, List.length_tail]
        have hpos := List.length_pos_iff.mpr hne
        exact .inl (.inl (by dsimp only; omega))
    · exact fun n hn' hw => h.answers n (hn.trans hn') hw
  refine ⟨n2, hn2, fun n hn' => ?_⟩
  induction n, hn' using Nat.le_induction with
  | base => exact hempty
  | succ n hn' ih =>
    rw [h.waiting_succ, hnew n (hn2.trans hn'), if_neg Bool.false_ne_true, ih]
    split <;> rfl

/-- **A line that waits is filled.** -/
theorem fills (hn : n0 ≤ n1) {L : ℕ} (hL : L ∈ (d n1).lines.waiting) :
    ∃ n ≥ n1, fillLast P (d n) (m n) = true ∧ (head (d n)).line = L := by
  by_contra hnone
  have hnot : ∀ n ≥ n1, fillLast P (d n) (m n) = true → (head (d n)).line ≠ L :=
    fun n hn' hl he => hnone ⟨n, hn', hl, he⟩
  -- So it waits for ever.
  have hin : ∀ n ≥ n1, L ∈ (d n).lines.waiting := by
    intro n hn'
    induction n, hn' using Nat.le_induction with
    | base => exact hL
    | succ n hn' ih =>
      obtain ⟨ram, hinv⟩ := h.inv n
      rw [h.waiting_succ]
      split_ifs with ha hl
      · exact List.mem_append_left _ ih
      · rw [(waiting_of_fillLast (r := r n) hinv hl).2] at ih
        exact (List.mem_cons.mp ih).resolve_left fun he => hnot n hn' hl he.symm
      · exact ih
  apply hnone
  -- Each retirement takes a line in front of it away.
  apply Clocked.eventually_of_rank
    (fun n => toLex ((d n).lines.waiting.idxOf L, (d n).eng.retireWork P))
    (fun n => Waits (d n)) (fun n => (m n).rvalid = true)
  · intro n hn' hgoal
    have hmem := hin n hn'
    have hw := h.waiting_succ n
    have hne : (d n).lines.waiting ≠ [] := List.ne_nil_of_mem hmem
    rw [Prod.Lex.toLex_lt_toLex, Prod.Lex.toLex_le_toLex]
    cases hl : fillLast P (d n) (m n)
    · have hsame : (d (n + 1)).lines.waiting.idxOf L = (d n).lines.waiting.idxOf L := by
        rw [hw, hl, if_neg Bool.false_ne_true]
        split_ifs
        · exact List.idxOf_append_of_mem hmem
        · rfl
      rw [hsame]
      rcases h.retireWork_succ hne hl with hlt | ⟨hwt, hrv, heq⟩
      · exact .inl (.inr ⟨rfl, hlt⟩)
      · exact .inr ⟨hwt, hrv, .inr ⟨rfl, heq.le⟩⟩
    · obtain ⟨ram, hinv⟩ := h.inv n
      obtain ⟨ha, hcons⟩ := waiting_of_fillLast (r := r n) hinv hl
      have hhead : (head (d n)).line ≠ L := hnot n hn' hl
      refine .inl (.inl ?_)
      rw [hw, ha, hl, if_neg Bool.false_ne_true, if_pos rfl]
      conv_rhs => rw [hcons, List.idxOf_cons_ne _ hhead]
      exact Nat.lt_succ_self _
  · exact fun n hn' hw => h.answers n (hn.trans hn') hw

/-! ## A request that is held -/

section Held

variable {a : Word} (hn : n0 ≤ n1) (hheld : ∀ n ≥ n1, (r n).Asks a)
  (hno : ∀ n ≥ n1, gnt P (d n) (r n) (m n) = false)
include hn hheld hno

omit h hn hheld in
/-- A request that is held has not been served. -/
theorem served_eq_false {n : ℕ} (hn' : n1 ≤ n) : served P (d n) (r n) (m n) = false :=
  (Bool.or_eq_false_iff.mp (hno n hn')).1

section Cacheable

variable (hram : isRam a = true)
include hram

omit h hn hno in
/-- A request that is held is for RAM. -/
theorem cacheable_of_held {n : ℕ} (hn' : n1 ≤ n) : cacheable (r n) = true := by
  rw [cacheable, (hheld n hn').addr]
  exact hram

omit hn in
/-- In an idle cycle the request is looked up, or it will be in the next one. -/
theorem not_holds_of_idle {n i : ℕ} (hn' : n1 ≤ n) (hs : (d n).eng.state = .idle) :
    ¬ (d n).lines.Holds P (P.lineOf a) i := by
  intro hold
  have hfresh : ∀ k, n1 ≤ k → RowsFresh P (d k) := fun k _ => by
    obtain ⟨ram, hinv⟩ := h.inv k
    exact hinv.rd.fresh
  have hserve : ∀ k, n1 ≤ k → (d k).lines.Holds P (P.lineOf a) i →
      lookup P (d k) (r k) (m k) = false := by
    intro k hk hold'
    by_contra hl
    have hs' := served_of_holds (m := m k) (hfresh k hk) (Bool.eq_true_of_not_eq_false hl)
      (i := i) (by rwa [(hheld k hk).addr])
    exact Bool.false_ne_true ((served_eq_false hno hk).symm.trans hs')
  have hl := hserve n hn' hold
  have hc := cacheable_of_held hheld hram hn'
  -- Nothing is served, so the line is still held in the next cycle.
  have hlines : (d (n + 1)).lines = (d n).lines := by
    rw [h.step n, next_lines_of_quiet (by simp [hs]) (by simp [fillWrite, hs]),
      served'_of_no_lookup hl]
  have hl' : lookup P (d (n + 1)) (r (n + 1)) (m (n + 1)) = true := by
    rw [h.step n]
    exact lookup_next (hheld n hn').req hc (.inl hs) hl (hheld (n + 1) (by omega)).req
      ((hheld (n + 1) (by omega)).addr.trans (hheld n hn').addr.symm) (lookupBlock_of_idle hs hc)
  have hno' := hserve (n + 1) (by omega) (by rwa [hlines])
  exact Bool.false_ne_true (hno'.symm.trans hl')

/-- The line of the request never waits: once filled, it would be served. -/
theorem not_waiting {n : ℕ} (hn' : n1 ≤ n) : P.lineOf a ∉ (d n).lines.waiting := by
  intro hL
  obtain ⟨k, hk, hl, hline⟩ := h.fills (hn.trans hn') hL
  obtain ⟨ram, hinv⟩ := h.inv k
  have hs := state_of_fillWrite (fillWrite_of_fillLast hl)
  have hidle : (d (k + 1)).eng.state = .idle := by
    rw [h.step k]
    change (nextEng P (d k) (r k) (m k)).state = .idle
    simp [nextEng, hs, hl]
  have hold := holds_of_fillLast (r := r k) hinv hl
  rw [hline, ← h.step k] at hold
  exact h.not_holds_of_idle hheld hno hram (by omega) hidle hold

/-- So the request gets no MSHR. -/
theorem no_alloc {n : ℕ} (hn' : n1 ≤ n) : alloc P (d n) (r n) (m n) = false := by
  by_contra ha
  refine h.not_waiting hn hheld hno hram (n := n + 1) (by omega) ?_
  rw [h.waiting_succ, if_pos (Bool.eq_true_of_not_eq_false ha), (hheld n hn').addr]
  exact List.mem_append_right _ (List.mem_singleton.mpr rfl)

/-- A cacheable request is not held back for ever. -/
theorem cacheable_granted : False := by
  obtain ⟨n2, hn2, hempty⟩ := h.drains hn fun n hn' => h.no_alloc hn hheld hno hram hn'
  -- With no MSHR a lookup would serve the request or allocate one.
  have hl : ∀ n ≥ n2, lookup P (d n) (r n) (m n) = false := by
    intro n hn'
    by_contra hl
    rcases served_or_alloc (Bool.eq_true_of_not_eq_false hl) (hempty n hn') with hs | ha
    · exact Bool.false_ne_true ((served_eq_false hno (hn2.trans hn')).symm.trans hs)
    · exact Bool.false_ne_true
        ((h.no_alloc hn hheld hno hram (hn2.trans hn')).symm.trans ha)
  have hfill : ∀ n ≥ n2, (d n).eng.state ≠ .fill := by
    intro n hn' hs
    obtain ⟨ram, hinv⟩ := h.inv n
    have hhead := head_of_fill hinv hs
    rw [List.map_eq_nil_iff.mp (hempty n hn')] at hhead
    exact Option.some_ne_none _ hhead.symm
  -- And the engine gives the arrays free in the end.
  have hfree : ∀ n ≥ n2, (d n).eng.state ≠ .idle ∧ (d n).eng.state ≠ .scan ∧
      (d n).eng.state ≠ .evictWrite := by
    intro n hn'
    have hc := cacheable_of_held hheld hram (hn2.trans hn')
    have hlook : lookupBlock (d (n + 1)) (m (n + 1)) = false →
        ¬ ((d n).eng.state = .idle ∨ (d n).eng.state = .scan ∨ (d n).eng.state = .evictWrite) := by
      intro hb hs
      have haddr : (r (n + 1)).addr = (r n).addr :=
        (hheld (n + 1) (by omega)).addr.trans (hheld n (hn2.trans hn')).addr.symm
      have hl' := lookup_next (hheld n (hn2.trans hn')).req hc hs (hl n hn')
        (hheld (n + 1) (by omega)).req haddr (by rw [← h.step n]; exact hb)
      rw [← h.step n] at hl'
      exact Bool.false_ne_true ((hl (n + 1) (by omega)).symm.trans hl')
    have hstate : (d (n + 1)).eng.state = (nextEng P (d n) (r n) (m n)).state := by
      rw [h.step n]
      rfl
    have hnf := hfill (n + 1) (by omega)
    refine ⟨fun hs => ?_, fun hs => ?_, fun hs => ?_⟩
    · refine hlook ?_ (.inl hs)
      rw [h.step n]
      exact lookupBlock_of_idle hs hc
    · refine hlook (lookupBlock_eq_false ?_ ?_ hnf) (.inr (.inl hs)) <;> rw [hstate,
        nextEng_of_scan hs] <;> split_ifs <;> simp [hs]
    · refine hlook (lookupBlock_eq_false ?_ ?_ hnf) (.inr (.inr hs)) <;> rw [hstate] <;>
        simp only [nextEng, hs] <;> split_ifs <;> simp [hs]
  obtain ⟨n, hn', hs⟩ : ∃ n ≥ n2, (d n).eng.state = .idle ∨ (d n).eng.state = .scan ∨
      (d n).eng.state = .evictWrite := by
    apply Clocked.eventually_of_rank (fun n => (d n).eng.evictWork P) (fun n => Waits (d n))
      (fun n => (m n).rvalid = true)
    · intro n hn' hgoal
      obtain ⟨ram, hinv⟩ := h.inv n
      have heng : (d (n + 1)).eng = nextEng P (d n) (r n) (m n) := by rw [h.step n]; rfl
      rw [heng]
      cases hs : (d n).eng.state with
      | idle => exact absurd (.inl hs) hgoal
      | scan => exact absurd (.inr (.inl hs)) hgoal
      | evictWrite => exact absurd (.inr (.inr hs)) hgoal
      | fill => exact absurd hs (hfill n hn')
      | bypass =>
        cases hrv : (m n).rvalid
        · refine .inr ⟨.inr (.inr hs), Bool.false_ne_true, ?_⟩
          simp [nextEng, hs, hrv]
        · have hidle : (d (n + 1)).eng.state = .idle := by
            rw [heng]
            simp [nextEng, hs, hrv]
          exact absurd hidle (hfree (n + 1) (by omega)).1
      | tag =>
        rcases evictWork_next (r := r n) (m := m n) hinv (.inl hs) with ⟨hw, -⟩ | ⟨hlt, -⟩
        · exact absurd (hs.symm.trans hw) (by decide)
        · exact .inl hlt
      | victim =>
        rcases evictWork_next (r := r n) (m := m n) hinv (.inr (.inl hs)) with ⟨hw, -⟩ | ⟨hlt, -⟩
        · exact absurd (hs.symm.trans hw) (by decide)
        · exact .inl hlt
      | evictRead =>
        rcases evictWork_next (r := r n) (m := m n) hinv (.inr (.inr (.inl hs))) with
          ⟨hw, -⟩ | ⟨hlt, -⟩
        · exact absurd (hs.symm.trans hw) (by decide)
        · exact .inl hlt
    · exact fun n hn' hw => h.answers n (by omega) hw
  obtain ⟨h1, h2, h3⟩ := hfree n hn'
  rcases hs with hs | hs | hs
  · exact h1 hs
  · exact h2 hs
  · exact h3 hs

end Cacheable

/-- Nor is a device access. -/
theorem device_granted (hdev : isRam a = false) : False := by
  have hc : ∀ n ≥ n1, cacheable (r n) = false := fun n hn' => by
    rw [cacheable, (hheld n hn').addr]
    exact hdev
  have hl : ∀ n ≥ n1, lookup P (d n) (r n) (m n) = false := fun n hn' => by
    simp [lookup, hc n hn']
  have hnew : ∀ n ≥ n1, alloc P (d n) (r n) (m n) = false := fun n hn' => by
    simp [alloc, storeAlloc, loadAlloc, hl n hn']
  obtain ⟨n2, hn2, hempty⟩ := h.drains hn hnew
  -- With no MSHR the engine only cleans, and each line that it cleans is one less to clean.
  obtain ⟨n3, hn3, hidle⟩ : ∃ n ≥ n2, (d n).eng.state = .idle ∨ (d (n + 1)).eng.state = .idle := by
    apply Clocked.eventually_of_rank (fun n => rank P (d n)) (fun n => Waits (d n))
      (fun n => (m n).rvalid = true)
    · intro n hn' hgoal
      obtain ⟨hs, hs'⟩ := not_or.mp hgoal
      obtain ⟨ram, hinv⟩ := h.inv n
      have hscan : (d n).eng.state = .scan → (r n).cleanReq = true := by
        intro hst
        by_contra hcl
        refine hs' ?_
        rw [h.step n]
        change (nextEng P (d n) (r n) (m n)).state = .idle
        rw [nextEng_of_scan hst, Bool.eq_false_of_not_eq_true hcl]
        simp
      obtain ⟨hlines, heng⟩ := next_of_no_lookup (hl n (by omega)) hs hscan
      have hrank : rank P (d (n + 1)) =
          rank P (Dcache.next P (d n) { r n with req := false, cleanReq := true } (m n)) := by
        rw [rank, rank, ← hlines, ← heng, ← h.step n]
      have hclean : clean P (d n) = false := by simp [clean, hs]
      rw [hrank]
      rcases rank_next (r := { r n with req := false, cleanReq := true }) (m := m n) rfl hinv
        (h.target n) rfl hclean with hlt | ⟨hw, hrv, heq⟩
      · exact .inl hlt
      · refine .inr ⟨hw, ?_, heq.le⟩
        rw [hrv]
        exact Bool.false_ne_true
    · exact fun n hn' hw => h.answers n (by omega) hw
  -- The idle engine keeps the access at the memory port.
  obtain ⟨n4, hn4, hidle⟩ : ∃ n ≥ n2, (d n).eng.state = .idle := by
    rcases hidle with hs | hs
    · exact ⟨n3, hn3, hs⟩
    · exact ⟨n3 + 1, by omega, hs⟩
  have hgo : ∀ n ≥ n4, (d n).eng.state = .idle → bypassGo (d n) (r n) = true := by
    intro n hn' hs
    have he : mshrEmpty (d n) = true := by
      rw [mshrEmpty_iff]
      exact List.map_eq_nil_iff.mp (hempty n (by omega))
    simp [bypassGo, (hheld n (by omega)).req, hc n (by omega), hs, he]
  have hgnt : ∀ n ≥ n4, (d n).eng.state = .idle → (m n).gnt = false := by
    intro n hn' hs
    have hg := hno n (by omega)
    rw [gnt, hgo n hn' hs, Bool.true_and, Bool.or_eq_false_iff] at hg
    exact hg.2
  have hstay : ∀ n ≥ n4, (d n).eng.state = .idle := by
    intro n hn'
    induction n, hn' using Nat.le_induction with
    | base => exact hidle
    | succ n hn' ih =>
      rw [h.step n]
      change (nextEng P (d n) (r n) (m n)).state = .idle
      rw [nextEng_of_idle ih, hgo n hn' ih, hgnt n hn' ih]
      exact ih
  obtain ⟨k, hk, hg⟩ := h.accepts n4 (by omega) fun n hn' => hgo n hn' (hstay n hn')
  exact Bool.false_ne_true ((hgnt k hk (hstay k hk)).symm.trans hg)

omit hno in
/-- **A request that is held is granted.** -/
theorem granted : ∃ n ≥ n1, gnt P (d n) (r n) (m n) = true := by
  by_contra hnone
  have hno : ∀ n ≥ n1, gnt P (d n) (r n) (m n) = false :=
    fun n hn' => Bool.eq_false_of_not_eq_true fun hg => hnone ⟨n, hn', hg⟩
  cases hram : isRam a
  · exact h.device_granted hn hheld hno hram
  · exact h.cacheable_granted hn hheld hno hram

end Held

/-- **What is granted is answered**, and nothing else is granted or answered before. -/
theorem answered {n : ℕ} (hn : n0 ≤ n) (hg : gnt P (d n) (r n) (m n) = true) :
    ∃ k ≥ n, rvalid P (d k) (r k) (m k) = true ∧
      (∀ j, n < j → j ≤ k → gnt P (d j) (r j) (m j) = false) ∧
      ∀ j, n ≤ j → j < k → rvalid P (d j) (r j) (m j) = false := by
  by_cases hv : rvalid P (d n) (r n) (m n) = true
  · exact ⟨n, le_rfl, hv, fun j h1 h2 => absurd h1 (by omega), fun j h1 h2 => absurd h1 (by omega)⟩
  -- A grant without an answer is that of a device access, which keeps the engine.
  have hsv : served P (d n) (r n) (m n) = false := by
    by_contra hs
    exact hv (by rw [rvalid, Bool.eq_true_of_not_eq_false hs, Bool.true_or])
  rw [gnt, hsv, Bool.false_or, Bool.and_eq_true] at hg
  obtain ⟨hgo, hgm⟩ := hg
  have hrv : (m n).rvalid = false := by
    by_contra hr
    exact hv (by simp [rvalid, hgo, Bool.eq_true_of_not_eq_false hr])
  have hidle : (d n).eng.state = .idle := by
    simp only [bypassGo, Bool.and_eq_true, beq_iff_eq] at hgo
    exact hgo.1.2
  have hby : (d (n + 1)).eng.state = .bypass := by
    rw [h.step n]
    change (nextEng P (d n) (r n) (m n)).state = .bypass
    simp [nextEng_of_idle hidle, hgo, hgm, hrv]
  have hgnt : ∀ j, (d j).eng.state = .bypass → gnt P (d j) (r j) (m j) = false := by
    intro j hs
    have hl : lookup P (d j) (r j) (m j) = false := by simp [lookup, lookupBlock, hs]
    simp [gnt, served, storeHit, storeMerge, storeAlloc, loadHit, bypassGo, hl, hs]
  obtain ⟨k, hk, hr⟩ := h.answers (n + 1) (by omega) (.inr (.inr hby))
  -- The first answer ends the wait.
  have hex : ∃ k, n + 1 ≤ k ∧ (m k).rvalid = true := ⟨k, hk, hr⟩
  classical
  obtain ⟨hfirst, hfr⟩ := Nat.find_spec hex
  have hstay : ∀ j, n + 1 ≤ j → j ≤ Nat.find hex → (d j).eng.state = .bypass := by
    intro j hj
    induction j, hj using Nat.le_induction with
    | base => exact fun _ => hby
    | succ j hj ih =>
      intro hle
      have hrj : (m j).rvalid = false := Bool.eq_false_of_not_eq_true fun hr =>
        Nat.find_min hex (by omega) ⟨hj, hr⟩
      rw [h.step j]
      change (nextEng P (d j) (r j) (m j)).state = .bypass
      simp [nextEng, ih (by omega), hrj]
  refine ⟨Nat.find hex, by omega, ?_, fun j h1 h2 => hgnt j (hstay j h1 h2), fun j h1 h2 => ?_⟩
  · simp [rvalid, hfr, hstay _ hfirst le_rfl]
  · rcases Nat.eq_or_lt_of_le h1 with rfl | hlt
    · exact Bool.eq_false_of_not_eq_true hv
    · have hrj : (m j).rvalid = false := Bool.eq_false_of_not_eq_true fun hr =>
        Nat.find_min hex h2 ⟨hlt, hr⟩
      have hsj := (Bool.or_eq_false_iff.mp (hgnt j (hstay j hlt h2.le))).1
      rw [rvalid, hsj, hrj]
      rfl

/-- **Cleaning ends** once nothing is asked of the cache any more. -/
theorem cleaned (hn : n0 ≤ n1) (hclean : ∀ n ≥ n1, (r n).cleanReq = true ∧ (r n).req = false) :
    ∃ n ≥ n1, clean P (d n) = true := by
  apply Clocked.eventually_of_rank (fun n => rank P (d n)) (fun n => Waits (d n))
    (fun n => (m n).rvalid = true)
  · intro n hn1 hnot
    obtain ⟨ram, hinv⟩ := h.inv n
    obtain ⟨hcl, hreq⟩ := hclean n hn1
    rw [h.step n]
    rcases rank_next (m := m n) hreq hinv (h.target n) hcl (Bool.eq_false_of_not_eq_true hnot) with
      hlt | ⟨hw, hrv, heq⟩
    · exact .inl hlt
    · exact .inr ⟨hw, fun hv => Bool.false_ne_true (hrv.symm.trans hv), heq.le⟩
  · exact fun n hn1 hw => h.answers n (hn.trans hn1) hw

end Attended

end Dcache

/-! ## The cache with its memory -/

namespace CacheSystem

variable (P)

/-- `gnt` in cycle `n`. -/
def granted (init : CacheSystem) (ins : ℕ → DcacheReq × MemChoice) (n : ℕ) : Bool :=
  Dcache.gnt P (run P init ins n).cache (ins n).1
    (response P (run P init ins n) (ins n).1 (ins n).2)

/-- `rvalid` in cycle `n`. -/
def answered (init : CacheSystem) (ins : ℕ → DcacheReq × MemChoice) (n : ℕ) : Bool :=
  Dcache.rvalid P (run P init ins n).cache (ins n).1
    (response P (run P init ins n) (ins n).1 (ins n).2)

variable {P} {s : CacheSystem} {r : DcacheReq} {c : MemChoice}

/-- While the engine is idle the port holds nothing. -/
theorem port_idle (h : SystemInv P s) (hs : s.cache.eng.state = .idle) : s.port = .idle := by
  have hnone : ∀ q, ¬ PortOwner P s.cache q := by
    intro q hq
    cases hl : q.line
    · exact absurd (hs.symm.trans (hq.bypass hl)) (by decide)
    · rcases Dcache.memLine_iff.mp (hq.line hl).1 with hx | hx
      · exact absurd (hs.symm.trans hx) (by decide)
      · exact absurd (hs.symm.trans hx) (by decide)
  have hp := h.port
  cases hc : s.port with
  | idle => rfl
  | waiting q =>
    rw [hc] at hp
    exact absurd hp (hnone q)
  | done q v =>
    rw [hc] at hp
    exact absurd hp.1 (hnone q)

/-- A port that is idle answers only what it takes. -/
theorem gnt_of_rvalid (hp : s.port = .idle) (hv : (response P s r c).rvalid = true) :
    (response P s r c).gnt = true := by
  change (((s.port.accepted (request P s r) c).accessed s.ram c).rvalid c) = true at hv
  change s.port.gnt (request P s r) c = true
  rw [hp] at hv ⊢
  cases hq : request P s r with
  | none =>
    rw [hq] at hv
    exact absurd hv Bool.false_ne_true
  | some q =>
    rw [hq] at hv
    cases ha : c.accept
    · rw [MemPort.accepted, ha] at hv
      exact absurd hv Bool.false_ne_true
    · exact ha

/-- A cache whose memory answers every word request is attended to. -/
theorem attended (data : ℕ → ℕ → Word) (tag : ℕ → ℕ → ℕ) (dataRd : ℕ → Word) (tagRd : ℕ → ℕ)
    (ram : Ram) {ins : ℕ → DcacheReq × MemChoice} {n0 : ℕ}
    (hans : Answers P (reset data tag dataRd tagRd ram) ins n0) :
    Dcache.Attended P (fun n => (run P (reset data tag dataRd tagRd ram) ins n).cache)
      (fun n => (ins n).1) (fun n => response P (run P (reset data tag dataRd tagRd ram) ins n)
        (ins n).1 (ins n).2) n0 where
  step _ := rfl
  inv n := ⟨_, (systemInv_run (P := P) data tag dataRd tagRd ram ins n).cache⟩
  target n := (cleanTarget_run (P := P) data tag dataRd tagRd ram ins n).1
  answers n hn hw :=
    hans n hn (pending_of_waits (cleanTarget_run (P := P) data tag dataRd tagRd ram ins n).2 hw)
  accepts n hn hgo := by
    have hreq : Dcache.memReq (run P (reset data tag dataRd tagRd ram) ins n).cache (ins n).1 =
        true := by
      rw [Dcache.memReq, hgo n le_rfl, Bool.or_true]
    obtain ⟨k, hk, hv⟩ := hans n hn (.inl hreq)
    have hidle : (run P (reset data tag dataRd tagRd ram) ins k).cache.eng.state = .idle := by
      have hgo := hgo k hk
      simp only [Dcache.bypassGo, Bool.and_eq_true, beq_iff_eq] at hgo
      exact hgo.1.2
    exact ⟨k, hk, gnt_of_rvalid
      (port_idle (systemInv_run (P := P) data tag dataRd tagRd ram ins k) hidle) hv⟩

/-- **Every request is granted and answered.** A request that is held from cycle `n0` until it is
granted is granted in some cycle, and then answered before anything else is granted or answered:
whatever the engine was doing, whichever MSHRs wait, and however `clean_req` changes meanwhile. -/
theorem request_answered (P : DcacheParams) (data : ℕ → ℕ → Word) (tag : ℕ → ℕ → ℕ)
    (dataRd : ℕ → Word) (tagRd : ℕ → ℕ) (ram : Ram) (ins : ℕ → DcacheReq × MemChoice) (n0 : ℕ)
    (a : Word) (hans : Answers P (reset data tag dataRd tagRd ram) ins n0)
    (hheld : ∀ n ≥ n0, (∀ k, n0 ≤ k → k < n →
      granted P (reset data tag dataRd tagRd ram) ins k = false) → (ins n).1.Asks a) :
    ∃ n ≥ n0, granted P (reset data tag dataRd tagRd ram) ins n = true ∧
      ∃ k ≥ n, answered P (reset data tag dataRd tagRd ram) ins k = true ∧
        (∀ j, n < j → j ≤ k → granted P (reset data tag dataRd tagRd ram) ins j = false) ∧
        ∀ j, n ≤ j → j < k → answered P (reset data tag dataRd tagRd ram) ins j = false := by
  have h := attended data tag dataRd tagRd ram hans
  obtain ⟨n, hn, hg⟩ : ∃ n ≥ n0, granted P (reset data tag dataRd tagRd ram) ins n = true := by
    by_contra hnone
    have hno : ∀ k, n0 ≤ k → granted P (reset data tag dataRd tagRd ram) ins k = false :=
      fun k hk => Bool.eq_false_of_not_eq_true fun hg => hnone ⟨k, hk, hg⟩
    obtain ⟨n, hn, hg⟩ := h.granted le_rfl fun n hn => hheld n hn fun k hk _ => hno k hk
    exact hnone ⟨n, hn, hg⟩
  exact ⟨n, hn, hg, h.answered hn hg⟩

/-- A byte load from a cold cache, held from the fourth cycle on, with an immediate memory. -/
def byteLoadHeld (_ : ℕ) : DcacheReq × MemChoice :=
  (⟨0#32, true, true, 0x80000101#32, false, 0b0001#4, 0#32, 0b000#3⟩,
    ⟨true, true, true, 0#32, 0#32⟩)

/-- A byte store, and a load of its word that is held until it is granted. -/
theorem request_answered_byteLoadHeld :
    ∃ n ≥ 4, granted smallParams (reset (fun _ _ => 0#32) (fun _ _ => 0) (fun _ => 0#32)
        (fun _ => 0) fun _ => 0#32) byteLoadHeld n = true ∧
      ∃ k ≥ n, answered smallParams (reset (fun _ _ => 0#32) (fun _ _ => 0) (fun _ => 0#32)
          (fun _ => 0) fun _ => 0#32) byteLoadHeld k = true ∧
        (∀ j, n < j → j ≤ k → granted smallParams (reset (fun _ _ => 0#32) (fun _ _ => 0)
          (fun _ => 0#32) (fun _ => 0) fun _ => 0#32) byteLoadHeld j = false) ∧
        ∀ j, n ≤ j → j < k → answered smallParams (reset (fun _ _ => 0#32) (fun _ _ => 0)
          (fun _ => 0#32) (fun _ => 0) fun _ => 0#32) byteLoadHeld j = false :=
  request_answered smallParams _ _ _ _ _ byteLoadHeld 4 0x80000101#32
    (answers_of_prompt fun _ _ => ⟨rfl, rfl, rfl⟩) fun _ _ _ => ⟨rfl, rfl⟩

end CacheSystem

end Synapse32
