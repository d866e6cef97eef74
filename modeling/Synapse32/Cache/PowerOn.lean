import Synapse32.Cache.Fetch
import Synapse32.Cache.Steady

/-! # Caches and what their block RAMs held

No reset clears the block RAMs of the caches or their read registers. This file compares a cache
with one that differs from it only in cells that it has not written since reset: both stay so, and
nothing at their ports tells them apart. -/

namespace Synapse32

open ByteLanes

/-! ## The instruction cache -/

namespace Icache

/-- The block RAMs and their read registers. -/
structure Cells where
  data : ℕ → ℕ → Word
  tag : ℕ → ℕ → ℕ
  dataRd : ℕ → Word
  tagRd : ℕ → ℕ

/-- The cache with other contents of the block RAMs. -/
def withCells (c : Icache) (b : Cells) : Icache :=
  { c with data := b.data, tag := b.tag, dataRd := b.dataRd, tagRd := b.tagRd }

/-- The cells of the data RAM that the cache has written: those of valid ways, and those that a fill
has come to. -/
def Written (P : IcacheParams) (c : Icache) (row way : ℕ) : Prop :=
  c.valid way (row / P.lines.words) = true ∨
    (c.state = .fill ∧ way = c.fillWay ∧ ∃ o < c.fillWord, row = P.lines.row (c.fillSet P) o)

/-- **The contents differ at most in cells that have not been written.** -/
structure Cells.Fit (P : IcacheParams) (c : Icache) (b : Cells) : Prop where
  data : ∀ row way, Written P c row way → b.data row way = c.data row way
  tag : ∀ set way, c.valid way set = true → b.tag set way = c.tag set way
  dataRd : ∀ way, c.validRd way = true → b.dataRd way = c.dataRd way
  tagRd : ∀ way, c.validRd way = true → b.tagRd way = c.tagRd way

/-- After reset nothing is valid, so any contents fit. -/
theorem Cells.fit_reset {P : IcacheParams} (data : ℕ → ℕ → Word) (tag : ℕ → ℕ → ℕ)
    (dataRd : ℕ → Word) (tagRd : ℕ → ℕ) (b : Cells) :
    Cells.Fit P (Icache.reset data tag dataRd tagRd) b where
  data _ _ h := by
    rcases h with h | ⟨h, -⟩
    · exact absurd h Bool.false_ne_true
    · exact IcacheState.noConfusion h
  tag _ _ h := absurd h Bool.false_ne_true
  dataRd _ h := absurd h Bool.false_ne_true
  tagRd _ h := absurd h Bool.false_ne_true

variable {P : IcacheParams} {c : Icache} {x : IcacheIn}

/-- A way that is valid after the edge was so before, or a fill has just ended in it. -/
theorem valid_next_cases {set way : ℕ} (hv : nextValid P c x way set = true) :
    c.valid way set = true ∨ (fillLast P c x = true ∧ way = c.fillWay ∧ set = c.fillSet P) := by
  rw [nextValid] at hv
  split at hv
  · exact absurd hv Bool.false_ne_true
  split at hv
  · rename_i hlast
    rw [Bool.and_eq_true] at hlast
    rw [update2] at hv
    split at hv
    · rename_i heq
      exact .inr ⟨hlast.1, heq⟩
    · exact .inl hv
  · exact .inl hv

/-- The last write of a fill is one, and that of the line's last word. -/
theorem fillLast_spec (hl : fillLast P c x = true) :
    fillWrite c x = true ∧ c.state = .fill ∧ c.fillWord = P.lines.words - 1 := by
  rw [fillLast, Bool.and_eq_true, beq_iff_eq] at hl
  have hw := hl.1
  rw [fillWrite, Bool.and_eq_true, beq_iff_eq] at hw
  exact ⟨hl.1, hw.1, hl.2⟩

/-- **What is written after the edge** was written before it, or is the word of the cycle. -/
theorem written_next {row way : ℕ} (hw : Written P (Icache.next P c x) row way) :
    Written P c row way ∨ (fillWrite c x = true ∧ way = c.fillWay ∧
      row = P.lines.row (c.fillSet P) c.fillWord) := by
  rcases hw with hv | ⟨hst, hway, o, ho, hrow⟩
  · rcases valid_next_cases hv with hv | ⟨hlast, hway, hset⟩
    · exact .inl (.inl hv)
    · obtain ⟨hfw, hst, hword⟩ := fillLast_spec hlast
      have hlt := Nat.mod_lt row P.lines.words_pos
      have hrow : row = P.lines.row (c.fillSet P) (row % P.lines.words) := by
        rw [← hset, DcacheParams.row, Nat.mul_comm, Nat.div_add_mod]
      rcases Nat.lt_or_ge (row % P.lines.words) c.fillWord with ho | ho
      · exact .inl (.inr ⟨hst, hway, _, ho, hrow⟩)
      · -- The last word lands in this cycle.
        have heq : row % P.lines.words = c.fillWord := by omega
        exact .inr ⟨hfw, hway, by rw [← heq]; exact hrow⟩
  · have hnext : nextState P c x = .fill := hst
    rw [nextState] at hnext
    cases hs : c.state
    case idle =>
      rw [hs] at hnext
      have hmiss : miss P c x = true := by
        by_contra hm
        dsimp only at hnext
        rw [if_neg hm] at hnext
        split at hnext <;> exact IcacheState.noConfusion hnext
      have hzero : (Icache.next P c x).fillWord = 0 := if_pos hmiss
      rw [hzero] at ho
      exact absurd ho (Nat.not_lt_zero o)
    case fill =>
      have hmiss : miss P c x = false := by
        rw [miss, lookup, hs]
        simp
      have hset : (Icache.next P c x).fillSet P = c.fillSet P := by
        rw [fillSet, fillSet]
        change P.lines.setOf (if miss P c x then _ else c.fillLine) = _
        rw [hmiss, if_neg Bool.false_ne_true]
      have hkeep : (Icache.next P c x).fillWay = c.fillWay := by
        change (if miss P c x then _ else c.fillWay) = _
        rw [hmiss, if_neg Bool.false_ne_true]
      have hword : (Icache.next P c x).fillWord =
          if fillWrite c x then (c.fillWord + 1) % P.lines.words else c.fillWord := by
        change (if miss P c x then 0 else _) = _
        rw [hmiss, if_neg Bool.false_ne_true]
      rw [hkeep] at hway
      rw [hset] at hrow
      rw [hword] at ho
      split at ho
      · rename_i hfw
        have hle := Nat.mod_le (c.fillWord + 1) P.lines.words
        rcases Nat.lt_or_ge o c.fillWord with hlt | hge
        · exact .inl (.inr ⟨hs, hway, o, hlt, hrow⟩)
        · have heq : o = c.fillWord := by omega
          exact .inr ⟨hfw, hway, by rw [← heq]; exact hrow⟩
      · exact .inl (.inr ⟨hs, hway, o, ho, hrow⟩)
    case refill => rw [hs] at hnext; exact IcacheState.noConfusion hnext
    case bypass =>
      rw [hs] at hnext
      dsimp only at hnext
      split at hnext <;> exact IcacheState.noConfusion hnext

section Fit

variable {b : Cells} (h : b.Fit P c)
include h

/-- A way hits on contents that fit when it hits here: only read cells that are valid count. -/
theorem wayHit_withCells : wayHit P (c.withCells b) x = wayHit P c x := by
  funext way
  change (c.validRd way && b.tagRd way == reqTag P x) = (c.validRd way && c.tagRd way == reqTag P x)
  cases hv : c.validRd way
  · rfl
  · rw [h.tagRd way hv]

/-- The lookup as a whole hits on contents that fit when it hits here. -/
theorem hitAny_withCells : hitAny P (c.withCells b) x = hitAny P c x := by
  rw [hitAny, hitAny, wayHit_withCells h]

/-- A miss does not depend on the contents. -/
theorem miss_withCells : miss P (c.withCells b) x = miss P c x := by
  rw [miss, miss, hitAny_withCells h]
  rfl

/-- A hit does not depend on the contents. -/
theorem hit_withCells : hit P (c.withCells b) x = hit P c x := by
  rw [hit, hit, hitAny_withCells h]
  rfl

/-- Grants do not depend on the contents. -/
theorem gnt_withCells : gnt P (c.withCells b) x = gnt P c x := by
  rw [gnt, gnt, hit_withCells h]
  rfl

/-- Answers come in the same cycles. -/
theorem rvalid_withCells : rvalid P (c.withCells b) x = rvalid P c x := by
  rw [rvalid, rvalid, hit_withCells h]
  rfl

/-- A way that hits has been read from written cells. -/
theorem rdata_withCells : rdata P (c.withCells b) x = rdata P c x := by
  rw [rdata, rdata, hit_withCells h]
  split
  · rw [hitData, hitData, hitAny_withCells h, wayHit_withCells h]
    split
    · rename_i hany
      obtain ⟨-, hway⟩ := lastIndex_spec (anyIndex_iff.mp hany)
      rw [wayHit, Bool.and_eq_true] at hway
      exact h.dataRd _ hway.1
    · rfl
  · rfl

/-- The contents after the edge. -/
def Cells.next (P : IcacheParams) (c : Icache) (b : Cells) (x : IcacheIn) : Cells where
  data := nextData P (c.withCells b) x
  tag := nextTag P (c.withCells b) x
  dataRd := b.data (nextIndex P x)
  tagRd := b.tag (nextSet P x)

/-- **Step.** The other contents go along with the cache, and nothing else differs. -/
theorem next_withCells :
    Icache.next P (c.withCells b) x = (Icache.next P c x).withCells (b.next P c x) := by
  have hstate : nextState P (c.withCells b) x = nextState P c x := by
    rw [nextState, nextState, miss_withCells h]
    rfl
  unfold Icache.next
  rw [hstate, miss_withCells h]
  rfl

/-- **Step.** -/
theorem Cells.Fit.next : (b.next P c x).Fit P (Icache.next P c x) where
  data row way hw := by
    change nextData P (c.withCells b) x row way = nextData P c x row way
    have hold : Written P c row way → b.data row way = c.data row way := h.data row way
    rw [nextData, nextData]
    change (if fillWrite c x then update2 b.data (P.lines.row (c.fillSet P) c.fillWord) c.fillWay
      x.memRdata else b.data) row way = _
    cases hfw : fillWrite c x
    · rcases written_next hw with hw | ⟨hf, -⟩
      · exact hold hw
      · exact absurd (hfw.symm.trans hf) Bool.false_ne_true
    · rw [if_pos rfl, if_pos rfl, update2, update2]
      split
      · rfl
      · rename_i hne
        rcases written_next hw with hw | ⟨-, hway, hrow⟩
        · exact hold hw
        · exact absurd ⟨hrow, hway⟩ hne
  tag set way hv := by
    change nextTag P (c.withCells b) x set way = nextTag P c x set way
    rw [nextTag, nextTag]
    change (if fillLast P c x then update2 b.tag (c.fillSet P) c.fillWay (c.fillTag P) else b.tag)
      set way = _
    rcases valid_next_cases hv with hv | ⟨hlast, rfl, rfl⟩
    · split
      · rw [update2, update2, h.tag set way hv]
      · exact h.tag set way hv
    · rw [if_pos hlast, if_pos hlast, update2, update2, if_pos ⟨rfl, rfl⟩, if_pos ⟨rfl, rfl⟩]
  dataRd way hv := by
    change nextValidRd P c x way = true at hv
    rw [nextValidRd, Bool.and_eq_true] at hv
    refine h.data _ _ (.inl ?_)
    rw [nextIndex, P.lines.index_eq, P.lines.row_div (P.lines.wordOf_lt _)]
    exact hv.2
  tagRd way hv := by
    change nextValidRd P c x way = true at hv
    rw [nextValidRd, Bool.and_eq_true] at hv
    exact h.tag _ _ hv.2

end Fit

end Icache

/-! ## The data cache -/

namespace Dcache

/-- The block RAMs, their read registers, and the tag that the engine takes from them. -/
structure Cells where
  data : ℕ → ℕ → Word
  tag : ℕ → ℕ → ℕ
  dataRd : ℕ → Word
  tagRd : ℕ → ℕ
  engTag : ℕ

/-- The cache with other contents of the block RAMs. -/
def withCells (d : Dcache) (b : Cells) : Dcache where
  lines := { d.lines with data := b.data, tag := b.tag }
  rd := { d.rd with data := b.dataRd, tag := b.tagRd }
  eng := { d.eng with tag := b.engTag }
  plru := d.plru

/-- The cells of the data RAM that the cache has written: those of valid ways, those of a way that
is read out for its eviction, and those that a fill has come to. -/
def Written (P : DcacheParams) (d : Dcache) (row way : ℕ) : Prop :=
  d.lines.valid way (row / P.words) = true ∨
    (d.eng.state = .evictRead ∧ way = d.eng.way ∧ row / P.words = d.eng.set) ∨
    (d.eng.state = .fill ∧ way = d.eng.way ∧ ∃ o < d.eng.word, row = P.row d.eng.set o)

/-- **The contents differ at most in cells that have not been written.** What the engine has read
from written cells is the same too. -/
structure Cells.Fit (P : DcacheParams) (d : Dcache) (b : Cells) : Prop where
  data : ∀ row way, Written P d row way → b.data row way = d.lines.data row way
  tag : ∀ set way, d.lines.valid way set = true → b.tag set way = d.lines.tag set way
  dataRd : ∀ way, d.rd.valid way = true → b.dataRd way = d.rd.data way
  tagRd : ∀ way, d.rd.valid way = true → b.tagRd way = d.rd.tag way
  victim : d.eng.state = .victim → ∀ way, d.lines.valid way d.eng.set = true →
    b.tagRd way = d.rd.tag way
  readout : d.eng.state = .evictRead → d.eng.word ≠ 0 →
    b.dataRd d.eng.way = d.rd.data d.eng.way
  evicting : d.eng.Evicting → b.engTag = d.eng.tag

/-- After reset nothing is valid, so any contents fit. -/
theorem Cells.fit_reset {P : DcacheParams} (data : ℕ → ℕ → Word) (tag : ℕ → ℕ → ℕ)
    (dataRd : ℕ → Word) (tagRd : ℕ → ℕ) (b : Cells) :
    Cells.Fit P (Dcache.reset data tag dataRd tagRd) b where
  data _ _ h := by
    rcases h with h | ⟨h, -⟩ | ⟨h, -⟩
    · exact absurd h Bool.false_ne_true
    · exact EngState.noConfusion h
    · exact EngState.noConfusion h
  tag _ _ h := absurd h Bool.false_ne_true
  dataRd _ h := absurd h Bool.false_ne_true
  tagRd _ h := absurd h Bool.false_ne_true
  victim h := EngState.noConfusion h
  readout h := EngState.noConfusion h
  evicting h := by
    rcases h with h | h <;> exact EngState.noConfusion h

variable {P : DcacheParams} {d : Dcache} {r : DcacheReq} {m : MemRsp} {b : Cells}

/-! ### Ports -/

section Ports

variable (h : b.Fit P d)
include h

/-- A way hits on contents that fit when it hits here. -/
theorem wayHit_withCells : wayHit P (d.withCells b) r = wayHit P d r := by
  funext way
  change (d.rd.valid way && b.tagRd way == P.tagOf (P.lineOf r.addr)) =
    (d.rd.valid way && d.rd.tag way == P.tagOf (P.lineOf r.addr))
  cases hv : d.rd.valid way
  · rfl
  · rw [h.tagRd way hv]

/-- The lookup as a whole hits on contents that fit when it hits here. -/
theorem hitAny_withCells : hitAny P (d.withCells b) r = hitAny P d r := by
  rw [hitAny, hitAny, wayHit_withCells h]

/-- Contents that fit hit in the same way of the set. -/
theorem hitWay_withCells : hitWay P (d.withCells b) r = hitWay P d r := by
  rw [hitWay, hitWay, wayHit_withCells h]

/-- A way that hits has been read from written cells. -/
theorem hitWord_withCells : hitWord P (d.withCells b) r = hitWord P d r := by
  rw [hitWord, hitWord, hitAny_withCells h, hitWay_withCells h]
  split
  · rename_i hany
    obtain ⟨-, hway⟩ := lastIndex_spec (anyIndex_iff.mp hany)
    rw [wayHit, Bool.and_eq_true] at hway
    exact h.dataRd _ hway.1
  · rfl

/-- A store hits whatever the contents that fit. -/
theorem storeHit_withCells : storeHit P (d.withCells b) r m = storeHit P d r m := by
  rw [storeHit, storeHit, hitAny_withCells h]
  rfl

/-- A store is merged into a waiting line whatever the contents. -/
theorem storeMerge_withCells : storeMerge P (d.withCells b) r m = storeMerge P d r m := by
  rw [storeMerge, storeMerge, hitAny_withCells h]
  rfl

/-- A store opens an MSHR whatever the contents. -/
theorem storeAlloc_withCells : storeAlloc P (d.withCells b) r m = storeAlloc P d r m := by
  rw [storeAlloc, storeAlloc, hitAny_withCells h]
  rfl

/-- A load hits whatever the contents that fit. -/
theorem loadHit_withCells : loadHit P (d.withCells b) r m = loadHit P d r m := by
  rw [loadHit, loadHit, hitAny_withCells h]
  rfl

/-- A load opens an MSHR whatever the contents. -/
theorem loadAlloc_withCells : loadAlloc P (d.withCells b) r m = loadAlloc P d r m := by
  rw [loadAlloc, loadAlloc, hitAny_withCells h]
  rfl

/-- An MSHR is opened in the same cycles. -/
theorem alloc_withCells : alloc P (d.withCells b) r m = alloc P d r m := by
  rw [alloc, alloc, storeAlloc_withCells h, loadAlloc_withCells h]

/-- The same accesses are served. -/
theorem served_withCells : served P (d.withCells b) r m = served P d r m := by
  rw [served, served, storeHit_withCells h, storeMerge_withCells h, storeAlloc_withCells h,
    loadHit_withCells h]

/-- Grants do not depend on the contents. -/
theorem gnt_withCells : gnt P (d.withCells b) r m = gnt P d r m := by
  rw [gnt, gnt, served_withCells h]
  rfl

/-- Answers come in the same cycles. -/
theorem rvalid_withCells : rvalid P (d.withCells b) r m = rvalid P d r m := by
  rw [rvalid, rvalid, served_withCells h]
  rfl

/-- Answers carry the same word: a load hits a cell that has been written. -/
theorem rdata_withCells : rdata P (d.withCells b) r m = rdata P d r m := by
  rw [rdata, rdata, loadHit_withCells h, hitWord_withCells h]

/-- A line is written back under its tag. -/
theorem memAddr_withCells : memAddr P (d.withCells b) r = memAddr P d r := by
  unfold memAddr
  by_cases hs : d.eng.state = .evictWrite
  · rw [if_pos hs, if_pos (show (d.withCells b).eng.state = .evictWrite from hs)]
    change BitVec.ofNat 32 (P.lineWord (P.line b.engTag d.eng.set) _ * 4) = _
    rw [h.evicting (.inr hs)]
    rfl
  · rw [if_neg hs, if_neg (show (d.withCells b).eng.state ≠ .evictWrite from hs)]
    rfl

end Ports

/-! ### The edge -/

/-- The contents after the edge. -/
def Cells.next (P : DcacheParams) (d : Dcache) (b : Cells) (r : DcacheReq) (m : MemRsp) :
    Cells where
  data := nextData P (d.withCells b) r m
  tag := nextTag P (d.withCells b) m
  dataRd := b.data (readIndex P d r m)
  tagRd := b.tag (readSet P d r m)
  engTag := (nextEng P (d.withCells b) r m).tag

/-- A step of the readout passes the tag on. -/
theorem evictReadStep_withTag (e : Engine) (tag : ℕ) (v : Word) :
    ({ e with tag := tag }.evictReadStep P v) = { e.evictReadStep P v with tag := tag } := by
  unfold Engine.evictReadStep
  dsimp only
  split_ifs <;> rfl

/-- The engine takes the same steps. -/
theorem nextEng_withCells (h : b.Fit P d) : nextEng P (d.withCells b) r m =
    { nextEng P d r m with tag := (nextEng P (d.withCells b) r m).tag } := by
  cases hst : d.eng.state <;>
    have hst' : (d.withCells b).eng.state = _ := hst
  case idle =>
    rw [nextEng_of_idle hst, nextEng_of_idle hst']
    change (if bypassGo d r then _ else if !mshrEmpty d then _
      else if r.cleanReq && dirtyAny P d then _ else _) = _
    split_ifs <;> rfl
  case scan =>
    rw [nextEng_of_scan hst, nextEng_of_scan hst']
    change (if !mshrEmpty d || !r.cleanReq || !dirtyAny P d then _
      else if scanDirty P d then _ else _) = _
    split_ifs <;> rfl
  case evictRead =>
    have hstep : (d.withCells b).eng.evictReadStep P (b.dataRd d.eng.way) =
        { d.eng.evictReadStep P (d.rd.data d.eng.way) with tag := b.engTag } := by
      rw [← evictReadStep_withTag]
      by_cases hw : d.eng.word = 0
      · simp only [Engine.evictReadStep, withCells, hw, if_true]
      · rw [h.readout hst hw]
        rfl
    rw [nextEng_of_evictRead hst, nextEng_of_evictRead hst']
    change (d.withCells b).eng.evictReadStep P (b.dataRd d.eng.way) =
      { d.eng.evictReadStep P (d.rd.data d.eng.way) with
        tag := ((d.withCells b).eng.evictReadStep P (b.dataRd d.eng.way)).tag }
    rw [hstep]
  case fill =>
    simp only [nextEng, hst, hst']
    change (if fillLast P d m then _ else if fillWrite d m then _ else _) = _
    split_ifs <;> rfl
  case evictWrite =>
    simp only [nextEng, hst, hst']
    change (if m.rvalid then if engWordIndex P d = P.words - 1 then
      { (d.withCells b).eng with state := if d.eng.clean then .scan else .fill, word := 0 } else _
      else _) = _
    split_ifs <;> rfl
  case bypass =>
    simp only [nextEng, hst, hst']
    split_ifs <;> rfl
  all_goals
    simp only [nextEng, hst, hst']
    rfl

/-- **Step.** The other contents go along with the cache, and nothing else differs. -/
theorem next_withCells (h : b.Fit P d) :
    Dcache.next P (d.withCells b) r m = (Dcache.next P d r m).withCells (b.next P d r m) := by
  have hdirty : nextDirty P (d.withCells b) r m = nextDirty P d r m := by
    rw [nextDirty, nextDirty, storeHit_withCells h, hitWay_withCells h]
    rfl
  have hmshr : nextMshr P (d.withCells b) r m = nextMshr P d r m := by
    rw [nextMshr, nextMshr, alloc_withCells h, storeMerge_withCells h]
    rfl
  have hplru : nextPlru P (d.withCells b) r m = nextPlru P d r m := by
    rw [nextPlru, nextPlru, storeHit_withCells h, loadHit_withCells h, hitWay_withCells h]
    rfl
  have hstale : readStale P (d.withCells b) r m = readStale P d r m := by
    rw [readStale, readStale, dataWrite, dataWrite, storeHit_withCells h]
    rfl
  unfold Dcache.next nextRd
  rw [hdirty, hmshr, hplru, hstale, nextEng_withCells h]
  rfl

/-! ### What is written -/

variable {ram : Ram}

/-- A way that is valid after the edge was so before, or a fill has just ended in it. -/
theorem valid_next_cases {set way : ℕ} (hv : nextValid P d m way set = true) :
    d.lines.valid way set = true ∨
      (fillLast P d m = true ∧ way = d.eng.way ∧ set = d.eng.set) := by
  rw [nextValid] at hv
  split at hv
  · rw [update2] at hv
    split at hv
    · exact absurd hv Bool.false_ne_true
    · exact .inl hv
  split at hv
  · rename_i hlast
    rw [update2] at hv
    split at hv
    · rename_i heq
      exact .inr ⟨hlast, heq⟩
    · exact .inl hv
  · exact .inl hv

/-- A fill lands at the word that it has come to. -/
theorem fillLast_spec (hI : Inv P d ram) (hl : fillLast P d m = true) :
    fillWrite d m = true ∧ d.eng.state = .fill ∧ d.eng.word = P.words - 1 := by
  rw [fillLast, Bool.and_eq_true, beq_iff_eq] at hl
  have hst := state_of_fillWrite hl.1
  have hlt := hI.eng.fill_word hst
  rw [engWordIndex, Nat.mod_eq_of_lt hlt] at hl
  exact ⟨hl.1, hst, hl.2⟩

/-- A readout has begun with a dirty victim, or goes on. -/
theorem evictRead_next_cases (hs : (nextEng P d r m).state = .evictRead) :
    (d.eng.state = .victim ∧ victimDirty P d = true ∧ (nextEng P d r m).way = victim P d ∧
        (nextEng P d r m).set = d.eng.set ∧ (nextEng P d r m).word = 0) ∨
      (d.eng.state = .evictRead ∧ d.eng.word ≠ P.words ∧
        nextEng P d r m = d.eng.evictReadStep P (d.rd.data d.eng.way)) := by
  cases hst : d.eng.state
  case victim =>
    simp only [nextEng, hst] at hs ⊢
    refine .inl ⟨trivial, ?_, trivial, trivial, trivial⟩
    by_contra hd
    rw [if_neg hd] at hs
    split at hs <;> exact EngState.noConfusion hs
  case evictRead =>
    have heng : nextEng P d r m = _ := nextEng_of_evictRead hst
    refine .inr ⟨rfl, fun hw => ?_, heng⟩
    rw [heng, Engine.evictReadStep, if_pos hw] at hs
    exact EngState.noConfusion hs
  all_goals
    simp only [nextEng, hst] at hs
    try split_ifs at hs
    all_goals simp_all

/-- An eviction begins at a dirty victim, or goes on. -/
theorem evicting_next_cases (hs : (nextEng P d r m).Evicting) :
    (d.eng.state = .victim ∧ victimDirty P d = true) ∨ d.eng.Evicting := by
  rcases hs with hs | hs
  · rcases evictRead_next_cases hs with ⟨hst, hdirty, -⟩ | ⟨hst, -⟩
    · exact .inl ⟨hst, hdirty⟩
    · exact .inr (.inl hst)
  · rcases state_of_next_evictWrite hs with ⟨hst, -⟩ | ⟨hst, -⟩
    · exact .inr (.inl hst)
    · exact .inr (.inr hst)

/-- The engine takes a tag with its victim only. -/
theorem tag_next (hne : d.eng.state ≠ .victim) : (nextEng P d r m).tag = d.eng.tag := by
  unfold nextEng
  cases hst : d.eng.state
  case victim => exact absurd hst hne
  all_goals
    dsimp only
    try split_ifs
    all_goals rfl

/-- A fill has begun, or goes on. -/
theorem fill_next_cases (hs : (nextEng P d r m).state = .fill) : (nextEng P d r m).word = 0 ∨
    (d.eng.state = .fill ∧ (nextEng P d r m).way = d.eng.way ∧
      (nextEng P d r m).set = d.eng.set ∧
      (nextEng P d r m).word = if fillWrite d m then d.eng.word + 1 else d.eng.word) := by
  cases hst : d.eng.state
  case victim =>
    simp only [nextEng, hst]
    exact .inl trivial
  case evictWrite =>
    simp only [nextEng, hst] at hs ⊢
    split_ifs at hs ⊢ <;> simp_all
  case fill =>
    simp only [nextEng, hst] at hs ⊢
    split_ifs at hs ⊢ <;> simp_all
  all_goals
    simp only [nextEng, hst] at hs
    try split_ifs at hs
    all_goals simp_all

/-- **What is written after the edge** was written before it, or is the cell of the cycle. -/
theorem written_next (hI : Inv P d ram) {row way : ℕ}
    (hw : Written P (Dcache.next P d r m) row way) :
    Written P d row way ∨ (fillWrite d m = true ∧ way = d.eng.way ∧
      row = P.row d.eng.set d.eng.word) := by
  rcases hw with hv | ⟨hst, hway, hrow⟩ | ⟨hst, hway, o, ho, hrow⟩
  · rcases valid_next_cases hv with hv | ⟨hlast, hway, hset⟩
    · exact .inl (.inl hv)
    · obtain ⟨hfw, hst, hword⟩ := fillLast_spec hI hlast
      have hlt := Nat.mod_lt row P.words_pos
      have hrow : row = P.row d.eng.set (row % P.words) := by
        rw [← hset, DcacheParams.row, Nat.mul_comm, Nat.div_add_mod]
      rcases Nat.lt_or_ge (row % P.words) d.eng.word with ho | ho
      · exact .inl (.inr (.inr ⟨hst, hway, _, ho, hrow⟩))
      · -- The last word lands in this cycle.
        have heq : row % P.words = d.eng.word := by omega
        exact .inr ⟨hfw, hway, by rw [← heq]; exact hrow⟩
  · rcases evictRead_next_cases hst with ⟨-, hdirty, hway', hset', -⟩ | ⟨hold, -, heng⟩
    · -- A dirty victim is valid.
      have hwayv : way = victim P d := hway.trans hway'
      have hsetv : row / P.words = d.eng.set := hrow.trans hset'
      refine .inl (.inl ?_)
      rw [hwayv, hsetv]
      exact hI.lines.dirty_valid victim_lt hI.eng.set_lt hdirty
    · have hway : way = (nextEng P d r m).way := hway
      have hrow : row / P.words = (nextEng P d r m).set := hrow
      rw [heng, evictReadStep_way] at hway
      rw [heng, evictReadStep_set] at hrow
      exact .inl (.inr (.inl ⟨hold, hway, hrow⟩))
  · rcases fill_next_cases hst with hzero | ⟨hold, hway', hset', hword⟩
    · have ho : o < (nextEng P d r m).word := ho
      rw [hzero] at ho
      exact absurd ho (Nat.not_lt_zero o)
    · have ho : o < (nextEng P d r m).word := ho
      have hway : way = d.eng.way := hway.trans hway'
      have hrow : row = P.row (nextEng P d r m).set o := hrow
      rw [hset'] at hrow
      rw [hword] at ho
      split at ho
      · rename_i hfw
        rcases Nat.lt_or_ge o d.eng.word with hlt | hge
        · exact .inl (.inr (.inr ⟨hold, hway, o, hlt, hrow⟩))
        · have heq : o = d.eng.word := by omega
          exact .inr ⟨hfw, hway, by rw [← heq]; exact hrow⟩
      · exact .inl (.inr (.inr ⟨hold, hway, o, ho, hrow⟩))

/-- A fill writes its word whatever was there. -/
theorem nextData_of_fill (hlt : d.eng.word < P.words) (hf : fillWrite d m = true) :
    nextData P d r m = update2 d.lines.data (P.row d.eng.set d.eng.word) d.eng.way
      (merge ((head d).be d.eng.word) ((head d).data d.eng.word) m.rdata) := by
  have hword : engWordIndex P d = d.eng.word := Nat.mod_eq_of_lt hlt
  rw [nextData, dataWrite, hf, Bool.true_or, if_pos rfl, writeIndex, writeWay, writeBe, writeData,
    if_pos hf, if_pos hf, if_pos hf, if_pos hf, merge_allOnes, hword]

/-- A store that hits writes into a word of a valid way. -/
theorem nextData_of_storeHit (hf : fillWrite d m = false) (hs : storeHit P d r m = true) :
    nextData P d r m = update2 d.lines.data (P.index r.addr) (hitWay P d r)
      (merge (laneBe r) (laneData r) (d.lines.data (P.index r.addr) (hitWay P d r))) := by
  rw [nextData, dataWrite, hs, Bool.or_true, if_pos rfl, writeIndex, writeWay, writeBe, writeData,
    hf]
  rfl

/-- Without a fill and a store hit the data arrays keep their contents. -/
theorem nextData_of_none (hf : fillWrite d m = false) (hs : storeHit P d r m = false) :
    nextData P d r m = d.lines.data := by
  rw [nextData, dataWrite, hf, hs]
  rfl

/-- A store hits a way whose row has been written. -/
theorem written_of_storeHit (hI : Inv P d ram) (hs : storeHit P d r m = true) :
    Written P d (P.index r.addr) (hitWay P d r) := by
  simp only [storeHit, Bool.and_eq_true] at hs
  have hold := holds_hitWay hI.rd.fresh hs.1.1 hs.2
  refine .inl ?_
  rw [P.index_eq, P.row_div (P.wordOf_lt _)]
  exact hold.2.1

section Next

variable (h : b.Fit P d) (hI : Inv P d ram)
include h hI

/-- The data RAM after the edge. -/
theorem data_withCells {row way : ℕ} (hw : Written P (Dcache.next P d r m) row way) :
    nextData P (d.withCells b) r m row way = nextData P d r m row way := by
  cases hf : fillWrite d m
  · have hold : Written P d row way := by
      rcases written_next hI hw with hw | ⟨hc, -⟩
      · exact hw
      · exact absurd (hf.symm.trans hc) Bool.false_ne_true
    have hf' : fillWrite (d.withCells b) m = false := hf
    cases hs : storeHit P d r m
    · have hs' : storeHit P (d.withCells b) r m = false := (storeHit_withCells h).trans hs
      rw [nextData_of_none hf hs, nextData_of_none hf' hs']
      exact h.data _ _ hold
    · have hs' : storeHit P (d.withCells b) r m = true := (storeHit_withCells h).trans hs
      have hcell : (d.withCells b).lines.data (P.index r.addr) (hitWay P d r) =
        d.lines.data (P.index r.addr) (hitWay P d r) := h.data _ _ (written_of_storeHit hI hs)
      rw [nextData_of_storeHit hf hs, nextData_of_storeHit hf' hs', hitWay_withCells h, hcell,
        update2, update2]
      split
      · rfl
      · exact h.data _ _ hold
  · have hlt := hI.eng.fill_word (state_of_fillWrite hf)
    have hdata : nextData P (d.withCells b) r m = update2 b.data (P.row d.eng.set d.eng.word)
        d.eng.way (merge ((head d).be d.eng.word) ((head d).data d.eng.word) m.rdata) :=
      nextData_of_fill hlt hf
    rw [nextData_of_fill hlt hf, hdata, update2, update2]
    split
    · rfl
    · rename_i hne
      rcases written_next hI hw with hw | ⟨-, hway, hrow⟩
      · exact h.data _ _ hw
      · exact absurd ⟨hrow, hway⟩ hne

end Next

/-- **Step.** -/
theorem Cells.Fit.next (h : b.Fit P d) (hI : Inv P d ram) :
    (b.next P d r m).Fit P (Dcache.next P d r m) where
  data row way hw := data_withCells h hI hw
  tag set way hv := by
    change nextTag P (d.withCells b) m set way = nextTag P d m set way
    rw [nextTag, nextTag]
    change (if fillLast P d m then update2 b.tag d.eng.set d.eng.way (P.tagOf (head d).line)
      else b.tag) set way = _
    rcases valid_next_cases hv with hv | ⟨hlast, rfl, rfl⟩
    · split
      · rw [update2, update2, h.tag set way hv]
      · exact h.tag set way hv
    · rw [if_pos hlast, if_pos hlast, update2, update2, if_pos ⟨rfl, rfl⟩, if_pos ⟨rfl, rfl⟩]
  dataRd way hv := h.data _ _ (.inl hv)
  tagRd way hv := h.tag _ _ hv
  victim hs way hv := by
    have hold : d.eng.state = .tag := state_of_next_victim hs
    have hset : (Dcache.next P d r m).eng.set = d.eng.set := by
      change (nextEng P d r m).set = d.eng.set
      simp only [nextEng, hold]
    have hread : readSet P d r m = d.eng.set := by
      simp [readSet, readIndex, claimTag, hold, P.row_div P.words_pos]
    change b.tag (readSet P d r m) way = d.lines.tag (readSet P d r m) way
    rw [hread]
    refine h.tag _ _ ?_
    rw [hset] at hv
    rcases valid_next_cases hv with hv | ⟨hlast, -⟩
    · exact hv
    · have hfill := (fillLast_spec hI hlast).2.1
      rw [hold] at hfill
      exact EngState.noConfusion hfill
  readout hs hword := by
    rcases evictRead_next_cases hs with ⟨-, -, -, -, hzero⟩ | ⟨hold, hne, heng⟩
    · exact absurd hzero hword
    · have hlt : d.eng.word < P.words := lt_of_le_of_ne (hI.eng.read_word hold) hne
      have hread : readIndex P d r m = P.row d.eng.set d.eng.word := by
        simp [readIndex, claimTag, claimEvict, hold, hne, engWordIndex, Nat.mod_eq_of_lt hlt]
      have hway : (Dcache.next P d r m).eng.way = d.eng.way := by
        change (nextEng P d r m).way = d.eng.way
        rw [heng, evictReadStep_way]
      change b.data (readIndex P d r m) _ = d.lines.data (readIndex P d r m) _
      rw [hread, hway]
      exact h.data _ _ (.inr (.inl ⟨hold, rfl, P.row_div hlt⟩))
  evicting hs := by
    rcases evicting_next_cases hs with ⟨hst, hdirty⟩ | hold
    · have hst' : (d.withCells b).eng.state = .victim := hst
      have htag : (nextEng P d r m).tag = d.rd.tag (Dcache.victim P d) := by
        simp only [nextEng, hst]
      have htag' : (nextEng P (d.withCells b) r m).tag = b.tagRd (Dcache.victim P d) := by
        simp only [nextEng, hst']
        rfl
      change (nextEng P (d.withCells b) r m).tag = (nextEng P d r m).tag
      rw [htag, htag']
      exact h.victim hst _ (hI.lines.dirty_valid victim_lt hI.eng.set_lt hdirty)
    · have hne : d.eng.state ≠ .victim := by
        rcases hold with hold | hold <;> rw [hold] <;> exact EngState.noConfusion
      have hne' : (d.withCells b).eng.state ≠ .victim := hne
      change (nextEng P (d.withCells b) r m).tag = (nextEng P d r m).tag
      rw [tag_next hne, tag_next hne']
      exact h.evicting hold

end Dcache

end Synapse32
