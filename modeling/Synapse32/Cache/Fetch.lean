import Synapse32.Rtl.Icache
import Synapse32.Lib.Clocked
import Synapse32.Cache.Step

/-! # Freshness of fetches

Every word the instruction cache holds was read from memory in some cycle. A valid line holds words
read behind the last flush, all of them at the line's own addresses; the line a fill is overwriting
keeps its valid bit but answers no lookup, and a fill that a flush overtakes never becomes valid. -/

namespace Synapse32

/-- The memory behind a cache over time: the word at each word address in each cycle. -/
abbrev History := ℕ → ℕ → Word

namespace Icache

variable {P : IcacheParams} {c0 : Icache} {ins : ℕ → IcacheIn} {mem : History}

/-- The cache before cycle `n`. -/
def run (P : IcacheParams) (c0 : Icache) (ins : ℕ → IcacheIn) (n : ℕ) : Icache :=
  Clocked.run (next P) c0 ins n

/-- The state before a cycle, from that before the cycle before. -/
theorem run_succ (n : ℕ) : run P c0 ins (n + 1) = (run P c0 ins n).next P (ins n) := rfl

/-- The address presented to the memory in a cycle, if there is a request. -/
def request (P : IcacheParams) (c : Icache) (x : IcacheIn) : Option Word :=
  if c.memReq x then some (c.memAddr P x) else none

/-- **What surrounds the cache.** The arrays are read one edge ahead with the low 12 bits of the
fetch address, and the memory answers a request with the word it held at that address in some cycle
since the request was first presented. -/
structure Served (P : IcacheParams) (c0 : Icache) (ins : ℕ → IcacheIn) (mem : History) : Prop where
  preRead : ∀ n, (ins (n + 1)).addr.toNat % 4096 = (ins n).nextPc.toNat % 4096
  answers : ∀ n a, request P (run P c0 ins n) (ins n) = some a → (ins n).memRvalid = true →
    ∃ k ≤ n, (∀ j, k ≤ j → j ≤ n → request P (run P c0 ins j) (ins j) = some a) ∧
      (ins n).memRdata = mem k (DcacheParams.wordAddr a)

/-! ## Freshness -/

/-- Cycle `k` is later than every flush before cycle `n`. -/
def AfterFlush (ins : ℕ → IcacheIn) (n k : ℕ) : Prop := ∀ f < n, (ins f).flush = true → f < k

/-- **A fresh word**: memory held `v` at word address `a` in a cycle up to `n` that is later than
the last flush before `n`. -/
def Fresh (ins : ℕ → IcacheIn) (mem : History) (n a : ℕ) (v : Word) : Prop :=
  ∃ k ≤ n, AfterFlush ins n k ∧ v = mem k a

/-- Without a flush, what lay behind the last flush still does. -/
theorem AfterFlush.succ {n k : ℕ} (h : AfterFlush ins n k) (hf : (ins n).flush = false) :
    AfterFlush ins (n + 1) k := by
  intro f hfn hff
  rcases Nat.lt_succ_iff_lt_or_eq.mp hfn with hlt | rfl
  · exact h f hlt hff
  · exact absurd (hf.symm.trans hff) Bool.false_ne_true

/-- A fresh word stays fresh until the next flush. -/
theorem Fresh.succ {n a : ℕ} {v : Word} (h : Fresh ins mem n a v) (hf : (ins n).flush = false) :
    Fresh ins mem (n + 1) a v := by
  obtain ⟨k, hk, hafter, hv⟩ := h
  exact ⟨k, by omega, hafter.succ hf, hv⟩

/-! ## The invariant -/

/-- **A fill in progress**: its line is RAM and in no valid way. Unless a flush has killed it, no
flush has come since the miss, and the words written so far are fresh. -/
structure Filling (P : IcacheParams) (c0 : Icache) (ins : ℕ → IcacheIn) (mem : History) (n : ℕ)
    (c : Icache) : Prop where
  way : c.fillWay < P.numWays
  line : P.lines.RamLine c.fillLine
  word : c.fillWord < P.lines.words
  absent : ∀ i < P.numWays, c.valid i (c.fillSet P) = true → c.tag (c.fillSet P) i ≠ c.fillTag P
  dead : c.fillDead = true → c.valid c.fillWay (c.fillSet P) = false
  started : c.fillDead = false →
    ∃ t < n, request P (run P c0 ins t) (ins t) = none ∧ ∀ f < n, (ins f).flush = true → f ≤ t
  written : c.fillDead = false → ∀ o < c.fillWord,
    Fresh ins mem n (P.lines.lineWord c.fillLine o)
      (c.data (P.lines.row (c.fillSet P) o) c.fillWay)

/-- The line that a fill is overwriting. -/
def Victim (P : IcacheParams) (c : Icache) (set i : ℕ) : Prop :=
  c.state = .fill ∧ i = c.fillWay ∧ set = c.fillSet P

/-- **The cache before cycle `n`.** Each valid line but the victim of a running fill holds fresh
words of its own addresses; and a lookup sees the arrays as they are. -/
structure Inv (P : IcacheParams) (c0 : Icache) (ins : ℕ → IcacheIn) (mem : History) (n : ℕ)
    (c : Icache) : Prop where
  whole : ∀ set < P.lines.sets, ∀ i, c.valid i set = true → ¬ Victim P c set i →
    ∀ o < P.lines.words, Fresh ins mem n (P.lines.lineWord (P.lines.line (c.tag set i) set) o)
      (c.data (P.lines.row set o) i)
  distinct : ∀ set, ∀ i < P.numWays, ∀ j < P.numWays, c.valid i set = true →
    c.valid j set = true → c.tag set i = c.tag set j → i = j
  validRd : c.state = .idle → ∀ i, c.validRd i = c.valid i (set P (ins n))
  read : c.state = .idle → ∀ i, c.validRd i = true →
    c.tagRd i = c.tag (set P (ins n)) i ∧ c.dataRd i = c.data (P.lines.index (ins n).addr) i
  pointer : ∀ set, c.victimQ set < P.numWays
  filling : c.state = .fill → Filling P c0 ins mem n c

variable {n : ℕ} {c : Icache}

/-- A lookup looks at the set and the row that the arrays were read with. -/
theorem set_of_preRead {x y : IcacheIn} (h : y.addr.toNat % 4096 = x.nextPc.toNat % 4096) :
    P.lines.index y.addr = nextIndex P x ∧ set P y = nextSet P x := by
  have hw : DcacheParams.wordAddr y.addr % 1024 = DcacheParams.wordAddr x.nextPc % 1024 := by
    unfold DcacheParams.wordAddr
    omega
  have hdvd : P.lines.sets * P.lines.words ∣ 1024 := by
    rw [DcacheParams.sets, DcacheParams.words, ← pow_add]
    exact pow_dvd_pow 2 P.wordIndexBits_le
  have hindex : P.lines.index y.addr = P.lines.index x.nextPc := by
    unfold DcacheParams.index
    rw [← Nat.mod_mod_of_dvd _ hdvd, hw, Nat.mod_mod_of_dvd _ hdvd]
  refine ⟨hindex, ?_⟩
  rw [P.lines.index_eq, P.lines.index_eq] at hindex
  exact (P.lines.row_inj (P.lines.wordOf_lt _) (P.lines.wordOf_lt _) hindex).1

/-- After reset nothing is cached, so every cached word is right. -/
theorem inv_reset (data : ℕ → ℕ → Word) (tag : ℕ → ℕ → ℕ) (dataRd : ℕ → Word) (tagRd : ℕ → ℕ) :
    Inv P c0 ins mem 0 (reset data tag dataRd tagRd) where
  whole _ _ _ hv := absurd hv Bool.false_ne_true
  distinct _ _ _ _ _ hv := absurd hv Bool.false_ne_true
  validRd _ _ := rfl
  read _ _ hv := absurd hv Bool.false_ne_true
  pointer _ := P.numWays_pos
  filling := nofun

/-! ## One cycle -/

variable {x : IcacheIn}

/-- Only FILL writes a word of a line. -/
theorem fillWrite_of_not_fill (h : c.state ≠ .fill) : fillWrite c x = false := by
  simp [fillWrite, h]

/-- Only FILL ends a fill. -/
theorem fillLast_of_not_fill (h : c.state ≠ .fill) : fillLast P c x = false := by
  rw [fillLast, fillWrite_of_not_fill h, Bool.false_and]

/-- Without the last word of a fill no line becomes valid. -/
theorem valid_of_next {i set : ℕ} (hl : fillLast P c x = false)
    (hv : (c.next P x).valid i set = true) : x.flush = false ∧ c.valid i set = true := by
  change nextValid P c x i set = true at hv
  rw [nextValid, hl] at hv
  cases hf : x.flush
  · simpa [hf] using hv
  · simp [hf] at hv

/-- Tags change with the last word of a fill. -/
theorem tag_next (hl : fillLast P c x = false) : (c.next P x).tag = c.tag := by
  change nextTag P c x = _
  rw [nextTag, hl]
  rfl

/-- `LAST_WAY` wraps the pointer. -/
theorem pointer_next (h : ∀ set, c.victimQ set < P.numWays) (set : ℕ) :
    (c.next P x).victimQ set < P.numWays := by
  change nextVictimQ P c x set < P.numWays
  unfold nextVictimQ
  split
  · rw [Function.update_apply]
    split
    · split
      · exact P.numWays_pos
      · rename_i hlast
        have hlt := h (c.fillSet P)
        rw [IcacheParams.lastWay] at hlast
        exact lt_of_le_of_lt (Nat.mod_le _ _) (by omega)
    · exact h set
  · exact h set

/-- The way a miss takes is one of the ways. -/
theorem victim_lt (h : ∀ set, c.victimQ set < P.numWays) : victim P c x < P.numWays := by
  unfold victim
  cases hf : (List.range P.numWays).find? fun j => !c.validRd j with
  | none => exact h _
  | some j => exact List.mem_range.mp (List.mem_of_find?_eq_some hf)

/-- The state before a cycle in which the cache looks up. -/
theorem not_fill_of_next_idle (h : (c.next P x).state = .idle) : c.state ≠ .fill := by
  intro hs
  have hn : nextState P c x = .idle := h
  unfold nextState at hn
  rw [hs] at hn
  dsimp only at hn
  split at hn <;> cases hn

/-- The read registers of a lookup hold the rows as the arrays are: nothing was written at the edge
that read them. -/
theorem readRegs_next {y : IcacheIn} (hpre : y.addr.toNat % 4096 = x.nextPc.toNat % 4096)
    (h : (c.next P x).state = .idle) (i : ℕ) :
    (c.next P x).validRd i = (c.next P x).valid i (set P y) ∧
      ((c.next P x).validRd i = true →
        (c.next P x).tagRd i = (c.next P x).tag (set P y) i ∧
        (c.next P x).dataRd i = (c.next P x).data (P.lines.index y.addr) i) := by
  have hs := not_fill_of_next_idle h
  obtain ⟨hindex, hset⟩ := set_of_preRead (P := P) hpre
  have hdata : (c.next P x).data = c.data := by
    change nextData P c x = c.data
    rw [nextData, fillWrite_of_not_fill hs]
    rfl
  rw [hdata, tag_next (fillLast_of_not_fill hs), hindex, hset]
  refine ⟨?_, fun _ => ⟨rfl, rfl⟩⟩
  change nextValidRd P c x i = nextValid P c x i (nextSet P x)
  rw [nextValidRd, nextValid, fillLast_of_not_fill hs]
  cases x.flush <;> rfl

/-- A miss finds no valid way with its tag. -/
theorem absent_of_miss (h : Inv P c0 ins mem n c) (hm : miss P c (ins n) = true) :
    c.state = .idle ∧ cacheable (ins n) = true ∧ ∀ i < P.numWays,
      c.valid i (set P (ins n)) = true → c.tag (set P (ins n)) i ≠ reqTag P (ins n) := by
  simp only [miss, lookup, Bool.and_eq_true, Bool.not_eq_true', beq_iff_eq] at hm
  obtain ⟨⟨⟨-, hc⟩, hs⟩, hno⟩ := hm
  refine ⟨hs, hc, fun i hi hv ht => ?_⟩
  have hvr : c.validRd i = true := (h.validRd hs i).trans hv
  have hhit : wayHit P c (ins n) i = true := by
    rw [wayHit, hvr, (h.read hs i hvr).1, ht]
    simp
  have hany : hitAny P c (ins n) = true := anyIndex_iff.mpr ⟨i, hi, hhit⟩
  exact Bool.false_ne_true (hno.symm.trans hany)

/-- **A miss starts a fill**, in a cycle without a request to memory. -/
theorem filling_of_miss (h : Inv P c0 ins mem n (run P c0 ins n))
    (hm : miss P (run P c0 ins n) (ins n) = true) :
    Filling P c0 ins mem (n + 1) (run P c0 ins (n + 1)) := by
  obtain ⟨hs, hc, habsent⟩ := absent_of_miss h hm
  -- The fill's registers after the edge, all set by the miss.
  have hline : (run P c0 ins (n + 1)).fillLine = P.lines.lineOf (ins n).addr := if_pos hm
  have hword : (run P c0 ins (n + 1)).fillWord = 0 := if_pos hm
  have hway : (run P c0 ins (n + 1)).fillWay = victim P (run P c0 ins n) (ins n) := if_pos hm
  have hdead : (run P c0 ins (n + 1)).fillDead = false := if_pos hm
  have hset : (run P c0 ins (n + 1)).fillSet P = set P (ins n) := by rw [fillSet, hline]; rfl
  have htag : (run P c0 ins (n + 1)).fillTag P = reqTag P (ins n) := by rw [fillTag, hline]; rfl
  have hlast : fillLast P (run P c0 ins n) (ins n) = false :=
    fillLast_of_not_fill (by rw [hs]; decide)
  constructor
  · rw [hway]
    exact victim_lt h.pointer
  · exact ⟨(ins n).addr, hc, hline.symm⟩
  · rw [hword]
    exact P.lines.words_pos
  · rw [hset, htag]
    intro i hi hv
    rw [run_succ, tag_next hlast]
    -- The line that misses is in no way of its set.
    exact habsent i hi (valid_of_next hlast hv).2
  · exact fun hd => absurd (hdead.symm.trans hd) Bool.false_ne_true
  · -- The fill is live from the cycle of the miss, and no flush has come since.
    refine fun _ => ⟨n, Nat.lt_succ_self n, ?_, fun f hf _ => Nat.lt_succ_iff.mp hf⟩
    have hreq : memReq (run P c0 ins n) (ins n) = false := by simp [memReq, bypassReq, hs, hc]
    rw [request, hreq]
    rfl
  · intro _ o ho
    rw [hword] at ho
    exact absurd ho (Nat.not_lt_zero o)

/-- **The word a live fill writes is fresh**: its request was first presented behind the miss, and
so behind the last flush. -/
theorem fresh_of_answer (hserved : Served P c0 ins mem)
    (h : Filling P c0 ins mem n (run P c0 ins n)) (hs : (run P c0 ins n).state = .fill)
    (hd : (run P c0 ins n).fillDead = false) (hv : (ins n).memRvalid = true) :
    Fresh ins mem n (P.lines.lineWord (run P c0 ins n).fillLine (run P c0 ins n).fillWord)
      (ins n).memRdata := by
  obtain ⟨t, ht, hquiet, hflush⟩ := h.started hd
  have hreq : request P (run P c0 ins n) (ins n) = some (BitVec.ofNat 32
      (P.lines.lineWord (run P c0 ins n).fillLine (run P c0 ins n).fillWord * 4)) := by
    have hm : memReq (run P c0 ins n) (ins n) = true := by simp [memReq, hs]
    rw [request, if_pos hm, memAddr, if_pos hs]
  obtain ⟨k, hkn, hheld, hdata⟩ := hserved.answers n _ hreq hv
  have htk : t < k := by
    by_contra hle
    have hsome := hheld t (Nat.not_lt.mp hle) (Nat.le_of_lt ht)
    rw [hquiet] at hsome
    exact Option.some_ne_none _ hsome.symm
  refine ⟨k, hkn, fun f hf hff => lt_of_le_of_lt (hflush f hf hff) htk, ?_⟩
  have hfit := (ramLine_word h.line h.word).1
  rw [hdata, DcacheParams.wordAddr, BitVec.toNat_ofNat, Nat.mod_eq_of_lt hfit,
    Nat.mul_div_cancel _ (by decide)]

/-- The registers of a fill that goes on. -/
theorem fill_registers (hs : c.state = .fill) :
    (c.next P x).fillLine = c.fillLine ∧ (c.next P x).fillWay = c.fillWay ∧
      (c.next P x).fillWord =
        (if fillWrite c x then (c.fillWord + 1) % P.lines.words else c.fillWord) ∧
      (c.next P x).fillDead = (c.fillDead || x.flush) := by
  have hm : miss P c x = false := by simp [miss, lookup, hs]
  simp [Icache.next, hm, hs]

/-- Another word, or the word of another way or set, is not written by a fill. -/
theorem nextData_of_ne {set i o : ℕ} (hw : c.fillWord < P.lines.words) (ho : o < P.lines.words)
    (hne : ¬ (set = c.fillSet P ∧ i = c.fillWay ∧ o = c.fillWord)) :
    (c.next P x).data (P.lines.row set o) i = c.data (P.lines.row set o) i := by
  change nextData P c x _ _ = _
  unfold nextData
  split
  · exact update2_row _ hw ho hne
  · rfl

/-- The word a fill writes. -/
theorem nextData_of_fillWrite (h : fillWrite c x = true) :
    (c.next P x).data (P.lines.row (c.fillSet P) c.fillWord) c.fillWay = x.memRdata := by
  change nextData P c x _ _ = _
  rw [nextData, if_pos h, update2_self]

/-- **A fill goes on**, over its next word or still waiting for one. -/
theorem filling_next (hserved : Served P c0 ins mem)
    (h : Filling P c0 ins mem n (run P c0 ins n)) (hs : (run P c0 ins n).state = .fill)
    (hl : fillLast P (run P c0 ins n) (ins n) = false) :
    Filling P c0 ins mem (n + 1) (run P c0 ins (n + 1)) := by
  obtain ⟨hline, hway, hword, hdead⟩ := fill_registers (P := P) (x := ins n) hs
  have hset : (run P c0 ins (n + 1)).fillSet P = (run P c0 ins n).fillSet P := by
    rw [fillSet, fillSet, run_succ, hline]
  have htag : (run P c0 ins (n + 1)).fillTag P = (run P c0 ins n).fillTag P := by
    rw [fillTag, fillTag, run_succ, hline]
  -- A fill is live after the edge only if it was before and no flush came.
  have hlive : (run P c0 ins (n + 1)).fillDead = false →
      (run P c0 ins n).fillDead = false ∧ (ins n).flush = false := by
    intro hd
    rw [run_succ, hdead, Bool.or_eq_false_iff] at hd
    exact hd
  have hlt : fillWrite (run P c0 ins n) (ins n) = true →
      (run P c0 ins n).fillWord + 1 < P.lines.words := by
    intro hw
    have hne : (run P c0 ins n).fillWord ≠ P.lines.words - 1 := by
      simpa [fillLast, hw] using hl
    have := h.word
    omega
  constructor
  · rw [run_succ, hway]
    exact h.way
  · rw [run_succ, hline]
    exact h.line
  · rw [run_succ, hword]
    split
    · exact Nat.mod_lt _ P.lines.words_pos
    · exact h.word
  · rw [hset, htag, run_succ, tag_next hl]
    exact fun i hi hv => h.absent i hi (valid_of_next hl hv).2
  · intro hd
    rw [hset, run_succ, hway, ← run_succ]
    -- The flush that kills a fill clears every valid bit.
    by_contra hv
    obtain ⟨hf, hv⟩ := valid_of_next hl (Bool.eq_true_of_not_eq_false hv)
    rw [run_succ, hdead, hf, Bool.or_false] at hd
    exact Bool.false_ne_true ((h.dead hd).symm.trans hv)
  · intro hd
    obtain ⟨hd, hf⟩ := hlive hd
    obtain ⟨t, ht, hquiet, hflush⟩ := h.started hd
    refine ⟨t, by omega, hquiet, fun f hfn hff => ?_⟩
    rcases Nat.lt_succ_iff_lt_or_eq.mp hfn with hlt | rfl
    · exact hflush f hlt hff
    · exact absurd (hf.symm.trans hff) Bool.false_ne_true
  · intro hd o ho
    obtain ⟨hd, hf⟩ := hlive hd
    rw [hset, run_succ, hway, hline]
    refine Fresh.succ ?_ hf
    by_cases hnew : fillWrite (run P c0 ins n) (ins n) = true ∧ o = (run P c0 ins n).fillWord
    · obtain ⟨hw, rfl⟩ := hnew
      rw [nextData_of_fillWrite hw]
      simp only [fillWrite, Bool.and_eq_true] at hw
      exact fresh_of_answer hserved h hs hd hw.2
    · have hold : o < (run P c0 ins n).fillWord := by
        rw [run_succ, hword] at ho
        cases hw : fillWrite (run P c0 ins n) (ins n)
        · simpa [hw] using ho
        · rw [if_pos hw, Nat.mod_eq_of_lt (hlt hw)] at ho
          have : o ≠ (run P c0 ins n).fillWord := fun he => hnew ⟨hw, he⟩
          omega
      rw [nextData_of_ne h.word (lt_trans hold h.word) (fun he => by omega)]
      exact h.written hd o hold

/-- The last word of a live fill makes its line valid, with the new tag. -/
theorem fillLast_facts (hl : fillLast P c x = true) : c.state = .fill ∧ x.memRvalid = true ∧
    c.fillWord = P.lines.words - 1 ∧ fillWrite c x = true ∧
    (c.next P x).tag = update2 c.tag (c.fillSet P) c.fillWay (c.fillTag P) := by
  have hl' := hl
  simp only [fillLast, fillWrite, Bool.and_eq_true, beq_iff_eq] at hl'
  obtain ⟨⟨hs, hv⟩, hw⟩ := hl'
  refine ⟨hs, hv, hw, by simp [fillWrite, hs, hv], ?_⟩
  change nextTag P c x = _
  rw [nextTag, if_pos hl]

/-- A line valid after the last word of a fill was valid before and is another, or it is the line of
the fill, which no flush has killed. -/
theorem valid_of_fillLast {i set : ℕ} (hl : fillLast P c x = true)
    (hdead : c.fillDead = true → c.valid c.fillWay (c.fillSet P) = false)
    (hv : (c.next P x).valid i set = true) :
    x.flush = false ∧ (¬ (i = c.fillWay ∧ set = c.fillSet P) ∧ c.valid i set = true ∨
      c.fillDead = false ∧ i = c.fillWay ∧ set = c.fillSet P) := by
  change nextValid P c x i set = true at hv
  rw [nextValid, hl] at hv
  cases hf : x.flush
  case true => simp [hf] at hv
  refine ⟨rfl, ?_⟩
  rw [hf, if_neg Bool.false_ne_true, Bool.true_and] at hv
  cases hd : c.fillDead
  · by_cases hh : i = c.fillWay ∧ set = c.fillSet P
    · exact .inr ⟨rfl, hh⟩
    · rw [hd, Bool.not_false, if_pos rfl, update2_of_ne _ _ hh] at hv
      exact .inl ⟨hh, hv⟩
  · rw [hd, Bool.not_true, if_neg Bool.false_ne_true] at hv
    refine .inl ⟨?_, hv⟩
    rintro ⟨rfl, rfl⟩
    exact Bool.false_ne_true ((hdead hd).symm.trans hv)

/-- **Step, the words of the valid lines.** -/
theorem whole_next (hserved : Served P c0 ins mem) (h : Inv P c0 ins mem n (run P c0 ins n))
    {set : ℕ} (hset : set < P.lines.sets) {i : ℕ} (hv : (run P c0 ins (n + 1)).valid i set = true)
    (hnv : ¬ Victim P (run P c0 ins (n + 1)) set i) {o : ℕ} (ho : o < P.lines.words) :
    Fresh ins mem (n + 1)
      (P.lines.lineWord (P.lines.line ((run P c0 ins (n + 1)).tag set i) set) o)
      ((run P c0 ins (n + 1)).data (P.lines.row set o) i) := by
  cases hl : fillLast P (run P c0 ins n) (ins n)
  · obtain ⟨hf, hv⟩ := valid_of_next hl hv
    rw [run_succ, tag_next hl]
    by_cases hs : (run P c0 ins n).state = .fill
    · -- The fill goes on, so the victim stays the victim.
      have hstate : (run P c0 ins (n + 1)).state = .fill := by
        change nextState P (run P c0 ins n) (ins n) = _
        rw [nextState, hs, hl]
        rfl
      obtain ⟨hline, hway, -, -⟩ := fill_registers (P := P) (x := ins n) hs
      have hne : ¬ (set = (run P c0 ins n).fillSet P ∧ i = (run P c0 ins n).fillWay) := by
        rintro ⟨rfl, rfl⟩
        refine hnv ⟨hstate, ?_, ?_⟩
        · rw [run_succ, hway]
        · rw [fillSet, fillSet, run_succ, hline]
      rw [nextData_of_ne (h.filling hs).word ho fun he => hne ⟨he.1, he.2.1⟩]
      exact (h.whole set hset i hv (fun hn => hne ⟨hn.2.2, hn.2.1⟩) o ho).succ hf
    · -- Outside a fill no word is written.
      have hdata : ((run P c0 ins n).next P (ins n)).data = (run P c0 ins n).data := by
        change nextData P (run P c0 ins n) (ins n) = _
        rw [nextData, fillWrite_of_not_fill hs]
        rfl
      rw [hdata]
      exact (h.whole set hset i hv (fun hn => hs hn.1) o ho).succ hf
  · obtain ⟨hs, hrv, hword, hw, htag⟩ := fillLast_facts hl
    have hfill := h.filling hs
    obtain ⟨hf, ⟨hne, hv⟩ | ⟨hd, rfl, rfl⟩⟩ := valid_of_fillLast hl hfill.dead hv
    · -- Another way than the one that was filled keeps its tag and its words.
      rw [run_succ, htag, update2_of_ne _ _ fun he => hne ⟨he.2, he.1⟩,
        nextData_of_ne hfill.word ho fun he => hne ⟨he.2.1, he.1⟩]
      exact (h.whole set hset i hv (fun hn => hne ⟨hn.2.1, hn.2.2⟩) o ho).succ hf
    · -- The fill is whole: its earlier words, and the one this edge writes.
      rw [run_succ, htag, update2_self]
      have hline : P.lines.line ((run P c0 ins n).fillTag P) ((run P c0 ins n).fillSet P) =
          (run P c0 ins n).fillLine := P.lines.line_tagOf_setOf _
      rw [hline]
      refine Fresh.succ ?_ hf
      by_cases hlast : o = (run P c0 ins n).fillWord
      · subst hlast
        rw [nextData_of_fillWrite hw]
        exact fresh_of_answer hserved hfill hs hd hrv
      · rw [nextData_of_ne hfill.word ho fun he => hlast he.2.2]
        exact hfill.written hd o (by omega)

/-- **Step, the tags of a set.** -/
theorem distinct_next (h : Inv P c0 ins mem n (run P c0 ins n)) (set : ℕ) {i j : ℕ}
    (hi : i < P.numWays) (hj : j < P.numWays) (hvi : (run P c0 ins (n + 1)).valid i set = true)
    (hvj : (run P c0 ins (n + 1)).valid j set = true)
    (ht : (run P c0 ins (n + 1)).tag set i = (run P c0 ins (n + 1)).tag set j) : i = j := by
  cases hl : fillLast P (run P c0 ins n) (ins n)
  · rw [run_succ, tag_next hl] at ht
    exact h.distinct set i hi j hj (valid_of_next hl hvi).2 (valid_of_next hl hvj).2 ht
  · obtain ⟨hs, -, -, -, htag⟩ := fillLast_facts hl
    have hfill := h.filling hs
    rw [run_succ, htag] at ht
    obtain ⟨-, ⟨hnei, hvi⟩ | ⟨-, rfl, hset⟩⟩ := valid_of_fillLast hl hfill.dead hvi
    · rw [update2_of_ne _ _ fun he => hnei ⟨he.2, he.1⟩] at ht
      obtain ⟨-, ⟨hnej, hvj⟩ | ⟨-, rfl, rfl⟩⟩ := valid_of_fillLast hl hfill.dead hvj
      · rw [update2_of_ne _ _ fun he => hnej ⟨he.2, he.1⟩] at ht
        exact h.distinct set i hi j hj hvi hvj ht
      · rw [update2_self] at ht
        exact absurd ht (hfill.absent i hi hvi)
    · obtain ⟨-, ⟨hnej, hvj⟩ | ⟨-, rfl, -⟩⟩ := valid_of_fillLast hl hfill.dead hvj
      · subst hset
        rw [update2_self, update2_of_ne _ _ fun he => hnej ⟨he.2, he.1⟩] at ht
        exact absurd ht.symm (hfill.absent j hj hvj)
      · rfl

/-- **Step.** -/
theorem Inv.next (hserved : Served P c0 ins mem) (h : Inv P c0 ins mem n (run P c0 ins n)) :
    Inv P c0 ins mem (n + 1) (run P c0 ins (n + 1)) where
  whole _ hset _ hv hnv _ ho := whole_next hserved h hset hv hnv ho
  distinct set _ hi _ hj hvi hvj ht := distinct_next h set hi hj hvi hvj ht
  validRd hs i := (readRegs_next (hserved.preRead n) hs i).1
  read hs i hv := (readRegs_next (hserved.preRead n) hs i).2 hv
  pointer := pointer_next h.pointer
  filling := by
    intro hs'
    have hs' : nextState P (run P c0 ins n) (ins n) = .fill := hs'
    rw [nextState] at hs'
    cases hs : (run P c0 ins n).state <;> rw [hs] at hs' <;> dsimp only at hs'
    case idle =>
      by_cases hm : miss P (run P c0 ins n) (ins n) = true
      · exact filling_of_miss h hm
      · rw [if_neg hm] at hs'
        split at hs' <;> cases hs'
    case fill =>
      refine filling_next hserved (h.filling hs) hs ?_
      by_contra hl
      rw [if_pos (Bool.eq_true_of_not_eq_false hl)] at hs'
      cases hs'
    case refill => cases hs'
    case bypass => split at hs' <;> cases hs'

/-! ## Whole runs -/

/-- **Run lemma.** The invariant holds before every cycle. -/
theorem inv_run (h0 : Inv P c0 ins mem 0 c0) (hserved : Served P c0 ins mem) (n : ℕ) :
    Inv P c0 ins mem n (run P c0 ins n) := by
  induction n with
  | zero => exact h0
  | succ n ih => exact ih.next hserved

/-- The fetch that has been granted and not answered before cycle `n`. -/
def outstanding (P : IcacheParams) (c0 : Icache) (ins : ℕ → IcacheIn) : ℕ → Option Word
  | 0 => none
  | n + 1 =>
    if (run P c0 ins n).rvalid P (ins n) then none
    else if (run P c0 ins n).gnt P (ins n) then some (ins n).addr
    else outstanding P c0 ins n

/-- **The fetch that is answered in cycle `n`**: the one granted in that cycle, else the outstanding
one. -/
def answered (P : IcacheParams) (c0 : Icache) (ins : ℕ → IcacheIn) (n : ℕ) : Option Word :=
  if (run P c0 ins n).rvalid P (ins n) then
    if (run P c0 ins n).gnt P (ins n) then some (ins n).addr else outstanding P c0 ins n
  else none

/-- A cacheable fetch is granted by a hit, which answers it. -/
theorem hit_of_gnt (hg : c.gnt P x = true) (hc : cacheable x = true) : c.hit P x = true := by
  simpa [gnt, bypassReq, hc] using hg

/-- Only uncached fetches are outstanding. -/
theorem outstanding_uncached {a : Word} (h : outstanding P c0 ins n = some a) :
    isRam a = false := by
  induction n with
  | zero => cases h
  | succ n ih =>
    unfold outstanding at h
    split at h
    · cases h
    · rename_i hr
      split at h
      · rename_i hg
        obtain rfl := Option.some.inj h
        by_contra hc
        have hhit := hit_of_gnt hg (Bool.eq_true_of_not_eq_false hc)
        exact hr (by rw [rvalid, hhit, Bool.true_or])
      · exact ih h

/-- A cacheable fetch is answered by a hit. -/
theorem hit_of_answered {a : Word} (h : answered P c0 ins n = some a) (ha : isRam a = true) :
    (run P c0 ins n).hit P (ins n) = true ∧ (ins n).addr = a := by
  unfold answered at h
  split at h
  · split at h
    · rename_i hg
      obtain rfl := Option.some.inj h
      exact ⟨hit_of_gnt hg ha, rfl⟩
    · exact absurd ((outstanding_uncached h).symm.trans ha) Bool.false_ne_true
  · cases h

/-- **A hit returns a fresh word of its own address.** -/
theorem Inv.fresh_of_hit (h : Inv P c0 ins mem n c) (hh : c.hit P (ins n) = true) :
    Fresh ins mem n (DcacheParams.wordAddr (ins n).addr) (c.rdata P (ins n)) := by
  have hh' := hh
  simp only [hit, lookup, Bool.and_eq_true, beq_iff_eq] at hh'
  obtain ⟨⟨⟨-, hc⟩, hs⟩, hany⟩ := hh'
  obtain ⟨i, hi⟩ : ∃ i, i = lastIndex P.numWays (wayHit P c (ins n)) := ⟨_, rfl⟩
  obtain ⟨-, hway⟩ := lastIndex_spec (anyIndex_iff.mp hany)
  rw [← hi, wayHit, Bool.and_eq_true, beq_iff_eq] at hway
  obtain ⟨hvr, htag⟩ := hway
  obtain ⟨htagRd, hdataRd⟩ := h.read hs i hvr
  have hdata : c.rdata P (ins n) = c.data (P.lines.index (ins n).addr) i := by
    rw [rdata, if_pos hh, hitData, if_pos hany, ← hi, hdataRd]
  have hline : P.lines.line (c.tag (set P (ins n)) i) (set P (ins n)) =
      P.lines.lineOf (ins n).addr := by
    rw [← htagRd, htag]
    exact P.lines.line_tagOf_setOf _
  have hfresh := h.whole (set P (ins n)) (P.lines.setOf_lt _) i ((h.validRd hs i).symm.trans hvr)
    (fun hn => absurd (hs.symm.trans hn.1) (by decide)) _ (P.lines.wordOf_lt (ins n).addr)
  rw [hline, P.lines.lineWord_lineOf] at hfresh
  rw [hdata, P.lines.index_eq]
  exact hfresh

/-- While a fill runs nothing is answered. -/
theorem silent_of_fill (hs : c.state = .fill) : c.gnt P x = false ∧ c.rvalid P x = false := by
  simp [gnt, rvalid, hit, lookup, bypassReq, hs]

/-- A flush during a fill leaves its way invalid, as long as the fill runs and behind its last
word. -/
theorem invalid_of_flush_in_fill (h : ∀ n, Inv P c0 ins mem n (run P c0 ins n)) {f m : ℕ}
    (hfm : f ≤ m) (hfill : ∀ j, f ≤ j → j ≤ m → (run P c0 ins j).state = .fill)
    (hflush : (ins f).flush = true) :
    (run P c0 ins (m + 1)).valid (run P c0 ins m).fillWay ((run P c0 ins m).fillSet P) =
      false := by
  have hdead : ∀ j, f < j → j ≤ m → (run P c0 ins j).fillDead = true := by
    intro j hfj
    induction j, hfj using Nat.le_induction with
    | base =>
      intro hjm
      obtain ⟨-, -, -, hd⟩ := fill_registers (P := P) (x := ins f) (hfill f le_rfl hfm)
      rw [run_succ, hd, hflush, Bool.or_true]
    | succ j hfj ih =>
      intro hjm
      obtain ⟨-, -, -, hd⟩ :=
        fill_registers (P := P) (x := ins j) (hfill j (by omega) (by omega))
      rw [run_succ, hd, ih (by omega), Bool.true_or]
  change nextValid P (run P c0 ins m) (ins m) _ _ = false
  rw [nextValid]
  rcases Nat.eq_or_lt_of_le hfm with rfl | hlt
  · rw [if_pos hflush]
  · have hd := hdead m hlt le_rfl
    rw [hd, Bool.not_true, Bool.and_false, if_neg Bool.false_ne_true]
    split
    · rfl
    · exact ((h m).filling (hfill m hfm le_rfl)).dead hd

/-- **Hits are whole and fresh.** In every run from reset, whatever the block RAMs held: the word
that answers a cacheable fetch was read from memory at exactly its address, behind every flush of an
earlier cycle; nothing is answered while a fill overwrites a line; a line that was being filled when
a flush came is not valid behind the fill; and no two ways of a set are valid with one tag. -/
theorem run_fresh (P : IcacheParams) (data : ℕ → ℕ → Word) (tag : ℕ → ℕ → ℕ) (dataRd : ℕ → Word)
    (tagRd : ℕ → ℕ) (ins : ℕ → IcacheIn) (mem : History)
    (hserved : Served P (reset data tag dataRd tagRd) ins mem) :
    (∀ n a, answered P (reset data tag dataRd tagRd) ins n = some a → isRam a = true →
      Fresh ins mem n (DcacheParams.wordAddr a)
        ((run P (reset data tag dataRd tagRd) ins n).rdata P (ins n))) ∧
    (∀ n, (run P (reset data tag dataRd tagRd) ins n).state = .fill →
      (run P (reset data tag dataRd tagRd) ins n).gnt P (ins n) = false ∧
        (run P (reset data tag dataRd tagRd) ins n).rvalid P (ins n) = false) ∧
    (∀ f m, f ≤ m →
      (∀ j, f ≤ j → j ≤ m → (run P (reset data tag dataRd tagRd) ins j).state = .fill) →
      (ins f).flush = true →
      (run P (reset data tag dataRd tagRd) ins (m + 1)).valid
        (run P (reset data tag dataRd tagRd) ins m).fillWay
        ((run P (reset data tag dataRd tagRd) ins m).fillSet P) = false) ∧
    (∀ n set, ∀ i < P.numWays, ∀ j < P.numWays,
      (run P (reset data tag dataRd tagRd) ins n).valid i set = true →
      (run P (reset data tag dataRd tagRd) ins n).valid j set = true →
      (run P (reset data tag dataRd tagRd) ins n).tag set i =
        (run P (reset data tag dataRd tagRd) ins n).tag set j → i = j) := by
  have hinv := inv_run (inv_reset data tag dataRd tagRd) hserved
  refine ⟨?_, fun n hs => silent_of_fill hs, ?_, fun n => (hinv n).distinct⟩
  · intro n a hans ha
    obtain ⟨hh, rfl⟩ := hit_of_answered hans ha
    exact (hinv n).fresh_of_hit hh
  · exact fun f m hfm hfill hflush => invalid_of_flush_in_fill hinv hfm hfill hflush

/-- Three ways of two sets, with two words a line. -/
def threeWays : IcacheParams := .ofValues 3 1 1 (by decide)

/-- One address fetched over and over, from a memory that holds its word addresses and answers at
once; a flush comes with the miss. -/
def refetch (n : ℕ) : IcacheIn where
  flush := n == 0
  nextPc := 0x80000004#32
  req := true
  addr := 0x80000004#32
  memGnt := true
  memRvalid := n == 1 || n == 2
  memRdata := if n = 1 then 0x20000000#32 else 0x20000001#32

/-- Reset with zeros in the block RAMs. -/
def zeroReset : Icache := reset (fun _ _ => 0#32) (fun _ _ => 0) (fun _ => 0#32) fun _ => 0

/-- The hit behind the fill returns the word that was read behind the flush. -/
theorem run_fresh_refetch :
    answered threeWays zeroReset refetch 4 = some 0x80000004#32 ∧
      Fresh refetch (fun _ a => BitVec.ofNat 32 a) 4 (DcacheParams.wordAddr 0x80000004#32)
        ((run threeWays zeroReset refetch 4).rdata threeWays (refetch 4)) := by
  have hans : answered threeWays zeroReset refetch 4 = some 0x80000004#32 := by decide +kernel
  refine ⟨hans, (run_fresh threeWays _ _ _ _ refetch _ ⟨fun _ => rfl, ?_⟩).1 4 _ hans (by decide)⟩
  intro n a hreq hv
  have hn : n = 1 ∨ n = 2 := by simpa [refetch] using hv
  refine ⟨n, le_rfl, fun j hnj hjn => ?_, ?_⟩
  · obtain rfl := Nat.le_antisymm hjn hnj
    exact hreq
  · rcases hn with rfl | rfl
    · have h1 : request threeWays (run threeWays zeroReset refetch 1) (refetch 1) =
          some 0x80000000#32 := by
        decide +kernel
      obtain rfl := Option.some.inj (h1.symm.trans hreq)
      rfl
    · have h2 : request threeWays (run threeWays zeroReset refetch 2) (refetch 2) =
          some 0x80000004#32 := by
        decide +kernel
      obtain rfl := Option.some.inj (h2.symm.trans hreq)
      rfl

end Icache

end Synapse32
