import Synapse32.Rtl.DataBus
import Synapse32.Rtl.MemPort
import Synapse32.Cache.View

/-! # The backing RAM as a memory of words

The two RAM regions of `unified_mem.v` as one memory of words, addressed physically. -/

namespace Synapse32

open ByteLanes

namespace UnifiedMem

variable {u : UnifiedMem} {a : Word}

/-- The RAM by physical word address, zero outside the two regions. -/
def words (u : UnifiedMem) : Ram := fun w =>
  if w < 2 ^ 30 then physReadWord u (BitVec.ofNat 32 (4 * w)) else 0#32

/-- The place of an address in the array. -/
theorem physToLocal_eq (a : Word) : physToLocal a =
    if 0x80000000 ≤ a.toNat ∧ a.toNat ≤ 0x83FFFFFF then some (a.toNat - 0x80000000)
    else if 0x10000000 ≤ a.toNat ∧ a.toNat ≤ 0x100FFFFF then
      some (a.toNat - 0x10000000 + 0x04000000)
    else none := by
  have h1 : isInstrMem a = true ↔ 0x80000000 ≤ a.toNat ∧ a.toNat ≤ 0x83FFFFFF := by
    simp [isInstrMem, BitVec.le_def]
  have h2 : isDataMem a = true ↔ 0x10000000 ≤ a.toNat ∧ a.toNat ≤ 0x100FFFFF := by
    simp [isDataMem, BitVec.le_def]
  have hlt := a.isLt
  unfold physToLocal
  by_cases c1 : isInstrMem a = true
  · have hr := h1.mp c1
    have hsub : (a - 0x80000000#32).toNat = a.toNat - 0x80000000 := by
      rw [BitVec.toNat_sub, BitVec.toNat_ofNat]
      omega
    rw [if_pos c1, if_pos hr, hsub]
  · rw [if_neg c1, if_neg (mt h1.mpr c1)]
    by_cases c2 : isDataMem a = true
    · have hr := h2.mp c2
      have hsub : (a - 0x10000000#32 + 0x04000000#32).toNat =
          a.toNat - 0x10000000 + 0x04000000 := by
        rw [BitVec.toNat_add, BitVec.toNat_sub, BitVec.toNat_ofNat, BitVec.toNat_ofNat]
        omega
      rw [if_pos c2, if_pos hr, hsub]
    · rw [if_neg c2, if_neg (mt h2.mpr c2)]

/-- The addresses of the two RAMs. -/
theorem isRam_iff (a : Word) : isRam a = true ↔
    (0x80000000 ≤ a.toNat ∧ a.toNat ≤ 0x83FFFFFF) ∨
      (0x10000000 ≤ a.toNat ∧ a.toNat ≤ 0x100FFFFF) := by
  simp [isRam, isInstrMem, isDataMem, BitVec.le_def]

/-- Outside the RAM regions an address has no place. -/
theorem physToLocal_of_not_ram (h : isRam a = false) : physToLocal a = none := by
  have hn := mt (isRam_iff a).mpr (by simp [h])
  rw [physToLocal_eq, if_neg (fun h1 => hn (Or.inl h1)), if_neg (fun h2 => hn (Or.inr h2))]

/-- A RAM address has a place inside the array. -/
theorem physToLocal_of_ram (h : isRam a = true) :
    ∃ l, physToLocal a = some l ∧ l / 4 < memSize ∧ l % 4 = a.toNat % 4 := by
  rw [physToLocal_eq]
  rcases (isRam_iff a).mp h with h1 | h1
  · exact ⟨_, if_pos h1, by unfold memSize; omega, by omega⟩
  · have hn : ¬ (0x80000000 ≤ a.toNat ∧ a.toNat ≤ 0x83FFFFFF) := by omega
    exact ⟨_, (if_neg hn).trans (if_pos h1), by unfold memSize; omega, by omega⟩

/-- A word of RAM is read by its word address. -/
theorem words_wordAddr (h : isRam a = true) {l : ℕ} (hl : physToLocal a = some l) :
    words u (DcacheParams.wordAddr a) = u (l / 4) := by
  have hlt := a.isLt
  have hword : (BitVec.ofNat 32 (4 * (a.toNat / 4))).toNat = 4 * (a.toNat / 4) := by
    rw [BitVec.toNat_ofNat]
    omega
  unfold words physReadWord DcacheParams.wordAddr
  rw [if_pos (by omega), physToLocal_eq, hword]
  rw [physToLocal_eq] at hl
  rcases (isRam_iff a).mp h with h1 | h1
  · rw [if_pos h1] at hl
    obtain rfl := Option.some_inj.mp hl
    rw [if_pos (by omega)]
    have hq : (4 * (a.toNat / 4) - 0x80000000) / 4 = (a.toNat - 0x80000000) / 4 := by omega
    simp only [hq]
    exact if_pos (by unfold memSize; omega)
  · have hn : ¬ (0x80000000 ≤ a.toNat ∧ a.toNat ≤ 0x83FFFFFF) := by omega
    have hn' : ¬ (0x80000000 ≤ 4 * (a.toNat / 4) ∧ 4 * (a.toNat / 4) ≤ 0x83FFFFFF) := by omega
    rw [if_neg hn, if_pos h1] at hl
    obtain rfl := Option.some_inj.mp hl
    rw [if_neg hn', if_pos (by omega)]
    have hq : (4 * (a.toNat / 4) - 0x10000000 + 0x04000000) / 4 =
        (a.toNat - 0x10000000 + 0x04000000) / 4 := by omega
    simp only [hq]
    exact if_pos (by unfold memSize; omega)

/-- An aligned word read of RAM. -/
theorem read_word (h : isRam a = true) (ha : a.toNat % 4 = 0) :
    read u true a 0b010#3 = words u (DcacheParams.wordAddr a) := by
  obtain ⟨l, hl, hlt, hmod⟩ := physToLocal_of_ram h
  rw [words_wordAddr h hl]
  have h0 : l % 4 = 0 := hmod.trans ha
  have hread : read u true a 0b010#3 =
      (wordAt u (l / 4 + 1) ++ wordAt u (l / 4)).extractLsb' (8 * (l % 4)) 32 := by
    unfold read
    simp [hl]
  have hlow : wordAt u (l / 4) = u (l / 4) := if_pos hlt
  rw [hread, h0, hlow]
  refine BitVec.eq_of_getLsbD_eq fun i hi => ?_
  rw [BitVec.getLsbD_extractLsb', BitVec.getLsbD_append]
  simp [hi]

/-- A write outside the RAM regions is dropped. -/
theorem write_of_not_ram (h : isRam a = false) (be : BitVec 4) (data : Word) :
    write u a be data = u := by
  simp [write, physToLocal_of_not_ram h]

/-- Different words of RAM have different places. -/
theorem wordAddr_of_place {w l l' : ℕ} (hw : w < 2 ^ 30)
    (hl' : physToLocal (BitVec.ofNat 32 (4 * w)) = some l') (hl : physToLocal a = some l)
    (heq : l' / 4 = l / 4) : w = DcacheParams.wordAddr a := by
  have hword : (BitVec.ofNat 32 (4 * w)).toNat = 4 * w := by
    rw [BitVec.toNat_ofNat]
    omega
  rw [physToLocal_eq, hword] at hl'
  rw [physToLocal_eq] at hl
  unfold DcacheParams.wordAddr
  split_ifs at hl hl' <;> simp only [Option.some_inj] at hl hl' <;> omega

/-- **A full-word write at an aligned RAM address** replaces that word and no other. -/
theorem words_write (h : isRam a = true) (ha : a.toNat % 4 = 0) (data : Word) :
    words (write u a 0b1111#4 data) =
      Function.update (words u) (DcacheParams.wordAddr a) data := by
  obtain ⟨l, hl, hlt, hmod⟩ := physToLocal_of_ram h
  have hmod0 : l % 4 = 0 := hmod.trans ha
  -- In the array the write replaces the word of `a`.
  have hw : write u a 0b1111#4 data = Function.update u (l / 4) data := by
    funext w
    have hall : ∀ k < 4, (0b1111#4).getLsbD k = true := by decide
    unfold write
    simp only [hl, hlt, if_true]
    by_cases hwl : w = l / 4
    · subst hwl
      rw [Function.update_self, if_pos (Or.inl rfl)]
      refine ext_byte fun k hk => ?_
      have hsub : 4 * (l / 4) + k - l = k := by omega
      rw [byte_ofBytes _ hk, hsub, if_pos ⟨by omega, by omega, hall k hk⟩]
    · rw [Function.update_of_ne hwl]
      split
      · rename_i hcase
        refine ext_byte fun k hk => ?_
        have hout : ¬ (l ≤ 4 * w + k ∧ 4 * w + k < l + 4 ∧
            (0b1111#4).getLsbD (4 * w + k - l) = true) := by omega
        rw [byte_ofBytes _ hk, if_neg hout]
      · rfl
  funext w
  -- Seen from the bus, only `a` leads to that word.
  rw [hw]
  by_cases hwa : w = DcacheParams.wordAddr a
  · rw [hwa, Function.update_self, words_wordAddr h hl, Function.update_self]
  · rw [Function.update_of_ne hwa]
    unfold words physReadWord
    split
    · rename_i hw30
      cases hloc : physToLocal (BitVec.ofNat 32 (4 * w)) with
      | none => rfl
      | some l' =>
        have hne : l' / 4 ≠ l / 4 := fun heq => hwa (wordAddr_of_place hw30 hloc hl heq)
        simp only [Function.update_of_ne hne]
    · rfl

/-- **A write that is a full aligned word of RAM, or goes to no RAM**, on the memory of words. -/
theorem words_write_if (u : UnifiedMem) (q : StoreReq) {line fire ram : Bool}
    (hline : line = true → isRam q.addr = true ∧ q.addr.toNat % 4 = 0 ∧ q.be = 0b1111#4)
    (haway : line = false → isRam q.addr = false) (hram : line = true → ram = true) :
    words (if fire && ram then u.write q.addr q.be q.wdata else u) =
      if fire && line then
        Function.update (words u) (DcacheParams.wordAddr q.addr)
          (merge q.be q.wdata (words u (DcacheParams.wordAddr q.addr)))
      else words u := by
  cases hl : line
  · rw [Bool.and_false, write_of_not_ram (haway hl)]
    simp
  · obtain ⟨h1, h2, h3⟩ := hline hl
    rw [hram hl, h3, Bool.and_true]
    cases fire
    · rfl
    · simp only [if_true]
      rw [words_write h1 h2, merge_allOnes]

end UnifiedMem

end Synapse32
