import Synapse32.Cache.Refinement

/-! # Words that keep their value

A word that the RAM and the view agree on, and that no store reaches, keeps its value in the RAM,
however often the lines around it are cached, stored to and written back. -/

namespace Synapse32

open Dcache

variable {P : DcacheParams} {d : Dcache} {r : DcacheReq} {m : MemRsp} {ram ram' : Ram} {L o : ℕ}
  {v : Word}

/-- **A steady word**: word `o` of line `L` is `v` in the RAM, in the view, and wherever the engine
has put it on its way to the RAM; no store bytes for it are pending. -/
structure Steady (P : DcacheParams) (d : Dcache) (ram : Ram) (L o : ℕ) (v : Word) : Prop where
  backed : ram (P.lineWord L o) = v
  view : viewWord P d.lines d.eng ram L o = v
  pending : ∀ e ∈ d.lines.mshr, e.line = L → e.be o = 0#4
  read : d.eng.state = .evictRead → L = d.eng.evictLine P → d.eng.word = o + 1 →
    d.rd.data d.eng.way = v
  buf : d.eng.state = .evictRead → L = d.eng.evictLine P → o + 1 < d.eng.word →
    d.eng.evictBuf o = v
  write : d.eng.state = .evictWrite → L = d.eng.evictLine P → d.eng.evictBuf o = v

/-- **In a clean cache every word is steady.** -/
theorem steady_of_clean (h : Inv P d ram) (hc : clean P d = true) (L : ℕ) (ho : o < P.words) :
    Steady P d ram L o (ram (P.lineWord L o)) := by
  have hview := view_of_clean h hc
  simp only [clean, Bool.and_eq_true, Bool.not_eq_true', beq_iff_eq] at hc
  obtain ⟨⟨-, hmshr⟩, hidle⟩ := hc
  refine ⟨rfl, ?_, ?_, ?_, ?_, ?_⟩
  · rw [← view_lineWord ho, hview]
  · intro e he
    rw [List.isEmpty_iff.mp hmshr] at he
    exact absurd he List.not_mem_nil
  all_goals exact fun hst => absurd (hidle.symm.trans hst) (by decide)

/-- While its line is being evicted the word is in the arrays. -/
theorem Steady.data (hs : Steady P d ram L o v) (h : Inv P d ram) (hev : d.eng.Evicting)
    (hL : L = d.eng.evictLine P) : d.lines.data (P.row d.eng.set o) d.eng.way = v := by
  have hview := hs.view
  cases hc : d.eng.clean
  · rw [hL, viewWord_of_not_holds (h.eng.evict_gone hev hc), uncachedWord,
      if_pos ⟨hev, hc, rfl⟩, ← hL] at hview
    have hover : overlay (d.lines.pending L) o (d.lines.data (P.row d.eng.set o) d.eng.way) =
        d.lines.data (P.row d.eng.set o) d.eng.way := by
      cases hp : d.lines.pending L with
      | none => rfl
      | some e =>
        have hmem := List.mem_of_find?_eq_some hp
        have hline : e.line = L := by simpa using List.find?_some hp
        rw [overlay, hs.pending e hmem hline]
        exact ByteLanes.merge_zero _ _
    exact hover.symm.trans hview
  · have hh := h.eng.holds_evictLine hev hc
    rw [hL, viewWord_of_holds (fun k hk => h.lines.unique hk hh) hh,
      setOf_evictLine h.eng.set_lt] at hview
    exact hview

/-- The write of a word that is being evicted leaves a steady word as it is. -/
theorem Steady.writeBack (hs : Steady P d ram L o v) (h : Inv P d ram) (ho : o < P.words)
    (hst : d.eng.state = .evictWrite) (hw : WritesBack P d.eng ram ram') :
    Steady P d ram' L o v where
  backed := by
    by_cases heq : P.lineWord L o = P.lineWord (d.eng.evictLine P) d.eng.word
    · obtain ⟨hL, hword⟩ := P.lineWord_inj ho (h.eng.write_word hst) heq
      rcases hw with rfl | rfl
      · exact hs.backed
      · rw [heq, Function.update_self, ← hword]
        exact hs.write hst hL
    · rw [writesBack_of_ne hw heq]
      exact hs.backed
  view := by
    rw [← view_lineWord ho, view_writeBack h.lines h.eng hst hw, view_lineWord ho]
    exact hs.view
  pending := hs.pending
  read := hs.read
  buf := hs.buf
  write := hs.write

/-! ## One edge -/

/-- A store to another word adds no bytes for the word. -/
theorem mergeStore_be {e : Mshr} (hb : e.line = L → e.be o = 0#4) (hline : e.line = P.lineOf r.addr)
    (hno : r.we = true → DcacheParams.wordAddr r.addr ≠ P.lineWord L o) :
    (mergeStore P r e).line = L → (mergeStore P r e).be o = 0#4 := by
  unfold mergeStore
  split
  · rename_i hwe
    intro hL
    have hL : e.line = L := hL
    dsimp only
    rw [Function.update_of_ne, hb hL]
    rintro rfl
    refine hno hwe ?_
    rw [← hL, hline]
    exact (P.lineWord_lineOf r.addr).symm
  · exact hb

/-- The bytes that are pending for a word come from stores to it. -/
theorem pending_next (hp : ∀ e ∈ d.lines.mshr, e.line = L → e.be o = 0#4)
    (hno : storeServed P d r m = true → DcacheParams.wordAddr r.addr ≠ P.lineWord L o) :
    ∀ e ∈ (next P d r m).lines.mshr, e.line = L → e.be o = 0#4 := by
  intro e he
  change e ∈ nextMshr P d r m at he
  rw [nextMshr] at he
  -- An entry is new, or was there: then a store may have merged into it.
  split at he
  · rename_i ha
    rcases List.mem_append.mp he with he | he
    · exact hp e he
    · obtain rfl := List.mem_singleton.mp he
      refine mergeStore_be (fun _ => rfl) rfl fun hwe => hno ?_
      have hload : loadAlloc P d r m = false := by simp [loadAlloc, hwe]
      have hstore : storeAlloc P d r m = true := by simpa [alloc, hload] using ha
      simp [storeServed, hstore]
  · split at he
    · rename_i hmerge
      have hserved : storeServed P d r m = true := by simp [storeServed, hmerge]
      have hmatch : matchAny P d r = true := by
        simp only [storeMerge, Bool.and_eq_true] at hmerge
        exact hmerge.1.2
      obtain ⟨e', hget, hline⟩ := match_spec hmatch
      obtain ⟨j, hj⟩ := List.mem_iff_getElem?.mp he
      rw [List.getElem?_modify] at hj
      split at hj
      · rename_i heq
        rw [← heq, hget] at hj
        obtain rfl := Option.some.inj hj
        exact mergeStore_be (hp e' (List.mem_of_getElem? hget)) hline fun _ => hno hserved
      · have hj : Option.map (fun a => a) d.lines.mshr[j]? = some e := hj
        rw [Option.map_id'] at hj
        exact hp e (List.mem_of_getElem? hj)
    · split at he
      · exact hp e (List.mem_of_mem_tail he)
      · exact hp e he

/-- A write-back comes from its readout, or goes on. -/
theorem state_of_next_evictWrite (hs : (nextEng P d r m).state = .evictWrite) :
    (d.eng.state = .evictRead ∧ d.eng.word = P.words ∧
        nextEng P d r m = d.eng.evictReadStep P (d.rd.data d.eng.way)) ∨
      (d.eng.state = .evictWrite ∧ (nextEng P d r m).evictBuf = d.eng.evictBuf ∧
        (nextEng P d r m).evictLine P = d.eng.evictLine P) := by
  cases hst : d.eng.state with
  | evictRead =>
    have heng := nextEng_of_evictRead (P := P) (r := r) (m := m) hst
    refine .inl ⟨rfl, ?_, heng⟩
    by_contra hw
    rw [heng, Engine.evictReadStep, if_neg hw] at hs
    exact absurd (hst.symm.trans hs) (by decide)
  | evictWrite =>
    refine .inr ⟨rfl, ?_, ?_⟩ <;> simp only [nextEng, hst] <;> split_ifs <;> rfl
  | tag => simp [nextEng, hst] at hs
  | _ =>
    simp only [nextEng, hst] at hs
    split_ifs at hs <;> simp_all

/-- The buffer holds the word once it is read, also when it is still in the read register. -/
theorem Steady.readout (hs : Steady P d ram L o v) (hst : d.eng.state = .evictRead)
    (hL : L = d.eng.evictLine P) (ho : o < d.eng.word) :
    (d.eng.evictReadStep P (d.rd.data d.eng.way)).evictBuf o = v := by
  rw [evictReadStep_buf, if_neg (by omega)]
  by_cases hlast : o = d.eng.word - 1
  · rw [hlast, Function.update_self]
    exact hs.read hst hL (by omega)
  · rw [Function.update_of_ne hlast]
    exact hs.buf hst hL (by omega)

/-- A readout that has read a word before goes on with the next. -/
theorem evictRead_goes_on (hst : (Dcache.next P d r m).eng.state = .evictRead)
    (hw : 0 < (Dcache.next P d r m).eng.word) :
    d.eng.state = .evictRead ∧
      (Dcache.next P d r m).eng = d.eng.evictReadStep P (d.rd.data d.eng.way) ∧
      (Dcache.next P d r m).eng.word = d.eng.word + 1 ∧
      (Dcache.next P d r m).eng.evictLine P = d.eng.evictLine P := by
  obtain ⟨hst0, hne⟩ := state_of_next_evictRead (P := P) hst hw
  have heng : (Dcache.next P d r m).eng = _ := nextEng_of_evictRead hst0
  refine ⟨hst0, heng, ?_, ?_⟩
  · rw [heng, Engine.evictReadStep, if_neg hne]
  · rw [heng, evictReadStep_line]

/-- **Step.** -/
theorem Steady.next (hs : Steady P d ram L o v) (h : Inv P d ram) (hm : MemOk P d ram m)
    (ho : o < P.words)
    (hno : storeServed P d r m = true → DcacheParams.wordAddr r.addr ≠ P.lineWord L o) :
    Steady P (next P d r m) ram L o v where
  backed := hs.backed
  view := by
    rw [← view_lineWord ho, view_next h hm]
    split
    · rename_i hstore
      rw [Function.update_of_ne (hno hstore).symm, view_lineWord ho]
      exact hs.view
    · rw [view_lineWord ho]
      exact hs.view
  pending := pending_next hs.pending hno
  read hst hL hword := by
    obtain ⟨hst0, heng, hw, hline⟩ := evictRead_goes_on hst (by omega)
    have hL := hL.trans hline
    have hwo : d.eng.word = o := Nat.succ.inj (hw.symm.trans hword)
    -- The row was read in this cycle.
    have hread : readIndex P d r m = P.row d.eng.set o := by
      simp [readIndex, claimTag, claimEvict, hst0, hwo, engWordIndex, Nat.mod_eq_of_lt ho,
        Nat.ne_of_lt ho]
    change d.lines.data (readIndex P d r m) (Dcache.next P d r m).eng.way = v
    rw [hread, heng, evictReadStep_way]
    exact hs.data h (.inl hst0) hL
  buf hst hL hword := by
    obtain ⟨hst0, heng, hw, hline⟩ := evictRead_goes_on hst (by omega)
    have hL := hL.trans hline
    rw [heng]
    exact hs.readout hst0 hL (by omega)
  write hst hL := by
    rcases state_of_next_evictWrite hst with ⟨hst0, hw, heng⟩ | ⟨hst0, hbuf, hline⟩
    · have heng : (Dcache.next P d r m).eng = _ := heng
      rw [heng, evictReadStep_line] at hL
      rw [heng]
      exact hs.readout hst0 hL (by omega)
    · have hbuf : (Dcache.next P d r m).eng.evictBuf = _ := hbuf
      rw [hbuf]
      exact hs.write hst0 (hL.trans hline)

end Synapse32
