import Synapse32.Data.Memory
import Synapse32.Isa.Hart

/-! # The RAM at every alignment

A write of the data port is a little-endian byte store wherever it starts; a read returns the bytes
at its address, but a halfword one byte into its word comes from one byte below. -/

namespace Synapse32

open ByteLanes

/-- The low bytes of `v` that a load delivers, extended as the load says. -/
def LoadOp.extend : LoadOp → Word → Word
  | .lb, v => (v.extractLsb' 0 8).signExtend 32
  | .lbu, v => (v.extractLsb' 0 8).setWidth 32
  | .lh, v => (v.extractLsb' 0 16).signExtend 32
  | .lhu, v => (v.extractLsb' 0 16).setWidth 32
  | .lw, v => v

namespace UnifiedMem

variable {u : UnifiedMem} {a : Word} {l : ℕ}

/-! ## The array -/

/-- A write of the data port on the array of bytes. -/
theorem bytes_write (hl : physToLocal a = some l) (hin : l + 3 < 4 * memSize) (be : BitVec 4)
    (data : Word) : bytes (write u a be data) = store (bytes u) l be data := by
  funext x
  have hx4 : x % 4 < 4 := Nat.mod_lt _ (by omega)
  have hsplit : 4 * (x / 4) + x % 4 = x := Nat.div_add_mod x 4
  have hlt : l / 4 < memSize := by omega
  unfold bytes store write
  simp only [hl, hlt, if_true]
  by_cases hw : x / 4 = l / 4 ∨ (x / 4 = l / 4 + 1 ∧ x / 4 < memSize)
  · rw [if_pos hw, byte_ofBytes _ hx4, hsplit]
  · -- no byte of another word is written
    have hout : ¬ (l ≤ x ∧ x < l + 4 ∧ be.getLsbD (x - l) = true) := by
      rintro ⟨h1, h2, -⟩
      omega
    rw [if_neg hw, if_neg hout]

/-- The lanes that a read chooses from. -/
theorem lane_pair (hin : l + 3 < 4 * memSize) {j : ℕ} (hj : j < l % 4 + 4) :
    (wordAt u (l / 4 + 1) ++ wordAt u (l / 4)).extractLsb' (8 * j) 8 =
      bytes u (4 * (l / 4) + j) := by
  rw [extractLsb'_append_byte _ _ (by omega)]
  unfold bytes
  by_cases h4 : j < 4
  · rw [if_pos h4, wordAt, if_pos (by omega), show (4 * (l / 4) + j) / 4 = l / 4 by omega,
      show (4 * (l / 4) + j) % 4 = j by omega]
  · rw [if_neg h4, wordAt, if_pos (by omega), show (4 * (l / 4) + j) / 4 = l / 4 + 1 by omega,
      show (4 * (l / 4) + j) % 4 = j - 4 by omega]

/-- A halfword that starts at the second byte of its word. -/
def HalfwordInside (a : Word) (size : ℕ) : Prop := size = 2 ∧ a.toNat % 4 = 1

/-- Whether a halfword lies inside its word can be decided. -/
instance (a : Word) (size : ℕ) : Decidable (HalfwordInside a size) := instDecidableAnd

/-- A read of the data port on the array of bytes: the bytes from `l` on, but for the halfword that
is spliced from the wrong ones. -/
theorem read_bytes (hl : physToLocal a = some l) (hin : l + 3 < 4 * memSize)
    (hmod : l % 4 = a.toNat % 4) (o : LoadOp) :
    read u true a o.funct3 =
      loadValue (bytes u) (if HalfwordInside a o.size then l - 1 else l) o.funct3 := by
  have hsplit : 4 * (l / 4) + l % 4 = l := Nat.div_add_mod l 4
  have hlane : ∀ j, j < l % 4 + 4 →
      (wordAt u (l / 4 + 1) ++ wordAt u (l / 4)).extractLsb' (8 * j) 8 =
        bytes u (4 * (l / 4) + j) := fun j hj => lane_pair hin hj
  -- a halfword is two lanes, from the place that `byte_offset` picks on
  have hhalf : (if l % 4 = 3 then
        (wordAt u (l / 4 + 1) ++ wordAt u (l / 4)).extractLsb' 24 16
      else (wordAt u (l / 4 + 1) ++ wordAt u (l / 4)).extractLsb' (16 * (l % 4 / 2)) 16) =
      loadHalf (bytes u) (if a.toNat % 4 = 1 then l - 1 else l) := by
    have hpick : (if l % 4 = 3 then
          (wordAt u (l / 4 + 1) ++ wordAt u (l / 4)).extractLsb' 24 16
        else (wordAt u (l / 4 + 1) ++ wordAt u (l / 4)).extractLsb' (16 * (l % 4 / 2)) 16) =
        (wordAt u (l / 4 + 1) ++ wordAt u (l / 4)).extractLsb'
          (8 * (if a.toNat % 4 = 1 then l % 4 - 1 else l % 4)) 16 := by
      split_ifs <;> first | (exfalso; omega) | (congr 1; omega)
    rw [hpick, extractLsb'_pair, hlane _ (by split_ifs <;> omega), hlane _ (by split_ifs <;> omega),
      loadHalf]
    congr 2 <;> split_ifs <;> omega
  have hword : (wordAt u (l / 4 + 1) ++ wordAt u (l / 4)).extractLsb' (8 * (l % 4)) 32 =
      loadWord (bytes u) l := by
    rw [extractLsb'_quad, loadWord]
    apply ext_byte
    intro k hk
    rw [byte_ofBytes _ hk, byte_ofBytes _ hk, hlane _ (by omega)]
    congr 1
    omega
  have hbyte := hlane (l % 4) (by omega)
  rw [hsplit] at hbyte
  unfold read
  simp only [hl, if_true, hbyte, hhalf, hword]
  cases o <;> simp [loadValue, LoadOp.funct3, HalfwordInside, LoadOp.size]

/-! ## Physical addresses -/

/-- The four bytes from `a` on lie in one RAM region. -/
def InOneRegion (a : Word) : Prop :=
  (isInstrMem a = true ∧ isInstrMem (a + 3#32) = true) ∨
    (isDataMem a = true ∧ isDataMem (a + 3#32) = true)

/-- The bounds of the two regions. -/
theorem InOneRegion.bounds (h : InOneRegion a) :
    (0x80000000 ≤ a.toNat ∧ a.toNat + 3 ≤ 0x83FFFFFF) ∨
      (0x10000000 ≤ a.toNat ∧ a.toNat + 3 ≤ 0x100FFFFF) := by
  have hadd : (a + 3#32).toNat = (a.toNat + 3) % 2 ^ 32 := BitVec.toNat_add a 3#32
  simp only [InOneRegion, isInstrMem, isDataMem, Bool.and_eq_true, decide_eq_true_eq,
    BitVec.le_def, hadd] at h
  simp only [BitVec.toNat_ofNat] at h
  omega

/-- The place of such an address. -/
theorem InOneRegion.place (h : InOneRegion a) :
    ∃ l, physToLocal a = some l ∧ l + 3 < 4 * memSize ∧ l % 4 = a.toNat % 4 := by
  rw [physToLocal_eq]
  rcases h.bounds with hb | hb
  · exact ⟨_, if_pos ⟨hb.1, by omega⟩, by unfold memSize; omega, by omega⟩
  · have hn : ¬ (0x80000000 ≤ a.toNat ∧ a.toNat ≤ 0x83FFFFFF) := by omega
    exact ⟨_, (if_neg hn).trans (if_pos ⟨hb.1, by omega⟩), by unfold memSize; omega, by omega⟩

/-- The bytes of RAM by physical address. -/
def ramBytes (u : UnifiedMem) : ℕ → BitVec 8 := bytes (words u)

/-- The bytes of RAM at an address are those of the place it is mapped to. -/
theorem ramBytes_place {x : Word} {p : ℕ} (hp : physToLocal x = some p) :
    ramBytes u x.toNat = bytes u p := by
  have hram : isRam x = true := by
    by_contra hn
    rw [physToLocal_of_not_ram (Bool.eq_false_iff.mpr hn)] at hp
    exact absurd hp (by simp)
  obtain ⟨q, hq, -, hmod⟩ := physToLocal_of_ram hram
  obtain rfl : q = p := Option.some_inj.mp (hq.symm.trans hp)
  have hword := words_wordAddr (u := u) hram hq
  show byte (words u (x.toNat / 4)) (x.toNat % 4) = byte (u (q / 4)) (q % 4)
  rw [← hmod, ← hword]
  rfl

/-- Away from RAM there is nothing. -/
theorem ramBytes_of_not_ram {x : ℕ} (h : ∀ y : Word, y.toNat = x → isRam y = false) :
    ramBytes u x = 0#8 := by
  have hzero : words u (x / 4) = 0#32 := by
    unfold words
    split
    · rename_i hw
      have hn : (BitVec.ofNat 32 (4 * (x / 4))).toNat = 4 * (x / 4) := by
        rw [BitVec.toNat_ofNat]
        omega
      have hx : (BitVec.ofNat 32 x).toNat = x := by
        rw [BitVec.toNat_ofNat]
        omega
      have hout : isRam (BitVec.ofNat 32 (4 * (x / 4))) = false := by
        have hnot := h _ hx
        rw [Bool.eq_false_iff, ne_eq, isRam_iff, hx] at hnot
        rw [Bool.eq_false_iff, ne_eq, isRam_iff, hn]
        omega
      rw [physReadWord, physToLocal_of_not_ram hout]
    · rfl
  show byte (words u (x / 4)) (x % 4) = 0#8
  rw [hzero]
  exact BitVec.extractLsb'_zero

/-- Places in one region lie as the addresses do. -/
theorem InOneRegion.place_sub (h : InOneRegion a) (hl : physToLocal a = some l) {x : Word} {p : ℕ}
    (hp : physToLocal x = some p) :
    (l ≤ p ∧ p < l + 4 ↔ a.toNat ≤ x.toNat ∧ x.toNat < a.toNat + 4) ∧
      (a.toNat ≤ x.toNat → x.toNat < a.toNat + 4 → p - l = x.toNat - a.toNat) := by
  have hb := h.bounds
  rw [physToLocal_eq] at hl hp
  split_ifs at hl hp <;> simp only [Option.some_inj] at hl hp <;> omega

/-- **A write of the data port is a byte store**, wherever it starts. -/
theorem InOneRegion.ramBytes_write (h : InOneRegion a) (u : UnifiedMem) (be : BitVec 4)
    (data : Word) : ramBytes (write u a be data) = store (ramBytes u) a.toNat be data := by
  obtain ⟨l, hl, hin, -⟩ := h.place
  funext x
  -- A byte of RAM is compared with the region's own address, and no other byte is written.
  by_cases hram : ∃ y : Word, y.toNat = x ∧ isRam y = true
  · obtain ⟨y, rfl, hy⟩ := hram
    obtain ⟨p, hp, -, -⟩ := physToLocal_of_ram hy
    obtain ⟨hiff, hsub⟩ := h.place_sub hl hp
    rw [ramBytes_place hp, bytes_write hl hin, store, store, ramBytes_place hp]
    by_cases hrange : a.toNat ≤ y.toNat ∧ y.toNat < a.toNat + 4
    · have hplace := hiff.mpr hrange
      rw [hsub hrange.1 hrange.2]
      simp only [hrange, hplace, true_and]
    · have hplace := mt hiff.mp hrange
      rw [if_neg (fun hc => hplace ⟨hc.1, hc.2.1⟩), if_neg (fun hc => hrange ⟨hc.1, hc.2.1⟩)]
  · have hnot : ∀ y : Word, y.toNat = x → isRam y = false := by
      intro y hy
      by_contra hc
      exact hram ⟨y, hy, by simpa using hc⟩
    rw [ramBytes_of_not_ram hnot, store, ramBytes_of_not_ram hnot, if_neg]
    rintro ⟨h1, h2, -⟩
    have hb := h.bounds
    have hx : (BitVec.ofNat 32 x).toNat = x := by
      rw [BitVec.toNat_ofNat]
      omega
    have hcon := hnot _ hx
    rw [Bool.eq_false_iff, ne_eq, isRam_iff, hx] at hcon
    omega

/-- The bytes from the word of `a` up to `a + 3` follow each other in the array. -/
theorem InOneRegion.ramBytes_near (h : InOneRegion a) (hl : physToLocal a = some l) {x : ℕ}
    (hlow : 4 * (a.toNat / 4) ≤ x) (hhigh : x < a.toNat + 4) :
    ramBytes u x = bytes u (l + x - a.toNat) := by
  have hb := h.bounds
  have hx : (BitVec.ofNat 32 x).toNat = x := by
    rw [BitVec.toNat_ofNat]
    omega
  have hp : physToLocal (BitVec.ofNat 32 x) = some (l + x - a.toNat) := by
    rw [physToLocal_eq] at hl
    rw [physToLocal_eq, hx]
    rcases hb with hinstr | hdata
    · rw [if_pos ⟨hinstr.1, by omega⟩] at hl
      have hsub : x - 0x80000000 = a.toNat - 0x80000000 + x - a.toNat := by omega
      rw [if_pos ⟨by omega, by omega⟩, ← Option.some_inj.mp hl, hsub]
    · have hna : ¬ (0x80000000 ≤ a.toNat ∧ a.toNat ≤ 0x83FFFFFF) := by omega
      have hnx : ¬ (0x80000000 ≤ x ∧ x ≤ 0x83FFFFFF) := by omega
      rw [if_neg hna, if_pos ⟨hdata.1, by omega⟩] at hl
      have hsub : x - 0x10000000 + 0x04000000 =
          a.toNat - 0x10000000 + 0x04000000 + x - a.toNat := by omega
      rw [if_neg hnx, if_pos ⟨by omega, by omega⟩, ← Option.some_inj.mp hl, hsub]
  rw [← ramBytes_place hp, hx]

/-- A load depends on the four bytes from its address on. -/
theorem loadValue_congr {m m' : ℕ → BitVec 8} {x x' : ℕ} (kind : BitVec 3)
    (h : ∀ k < 4, m (x + k) = m' (x' + k)) : loadValue m x kind = loadValue m' x' kind := by
  have h0 : m x = m' x' := by simpa using h 0 (by omega)
  have hhalf : loadHalf m x = loadHalf m' x' := by
    rw [loadHalf, loadHalf, h 1 (by omega), h0]
  have hword : loadWord m x = loadWord m' x' := by
    apply ext_byte
    intro k hk
    rw [loadWord, loadWord, byte_ofBytes _ hk, byte_ofBytes _ hk, h k hk]
  rw [loadValue, loadValue, hhalf, hword, h0]

/-- **A read of the data port** returns the bytes at its address, but for a halfword one byte into
its word: those of the address below. -/
theorem InOneRegion.read_eq (h : InOneRegion a) (u : UnifiedMem) (o : LoadOp) :
    read u true a o.funct3 =
      loadValue (ramBytes u) (if HalfwordInside a o.size then a.toNat - 1 else a.toNat)
        o.funct3 := by
  obtain ⟨l, hl, hin, hmod⟩ := h.place
  have hb := h.bounds
  rw [read_bytes hl hin hmod]
  apply loadValue_congr
  intro k hk
  by_cases hinside : HalfwordInside a o.size
  · have h1 := hinside.2
    rw [if_pos hinside, if_pos hinside, h.ramBytes_near hl (by omega) (by omega)]
    congr 1
    omega
  · rw [if_neg hinside, if_neg hinside, h.ramBytes_near hl (by omega) (by omega)]
    congr 1
    omega

/-! ## Reading back -/

/-- A halfword from its two bytes. -/
theorem loadHalf_of_bytes {m : ℕ → BitVec 8} {x : ℕ} {data : Word}
    (h : ∀ k < 2, m (x + k) = byte data k) : loadHalf m x = data.extractLsb' 0 16 := by
  rw [show data.extractLsb' 0 16 = byte data 1 ++ byte data 0 from extractLsb'_half data 0,
    ← h 0 (by decide), ← h 1 (by decide)]
  rfl

/-- Reading what a store wrote, in a memory of bytes. -/
theorem loadValue_store (m : ℕ → BitVec 8) (x : ℕ) {o : StoreOp} {i : LoadOp}
    (hsize : i.size = o.size) (data : Word) :
    loadValue (store m x o.be data) x i.funct3 = i.extend data := by
  have hbyte : ∀ k < o.size, store m x o.be data (x + k) = byte data k := by
    intro k hk
    have hbe : o.be.getLsbD k = true := by
      cases o <;> simp only [StoreOp.size] at hk <;> interval_cases k <;> rfl
    have h4 : o.size ≤ 4 := by cases o <;> decide
    rw [store, Nat.add_sub_cancel_left, if_pos ⟨by omega, by omega, hbe⟩]
  rw [← hsize] at hbyte
  have hlow : store m x o.be data x = data.extractLsb' 0 8 := by
    have h0 := hbyte 0 (by cases i <;> decide)
    rwa [Nat.add_zero] at h0
  cases i
  case lb => exact congrArg (BitVec.signExtend 32) hlow
  case lbu => exact congrArg (BitVec.setWidth 32) hlow
  case lh => exact congrArg (BitVec.signExtend 32) (loadHalf_of_bytes hbyte)
  case lhu => exact congrArg (BitVec.setWidth 32) (loadHalf_of_bytes hbyte)
  case lw =>
    apply ext_byte
    intro k hk
    show byte (loadWord (store m x o.be data) x) k = byte data k
    rw [loadWord, byte_ofBytes _ hk]
    exact hbyte k hk

/-- The byte enables of a store cover its size. -/
theorem be_iff (o : StoreOp) {k : ℕ} (hk : k < 4) : o.be.getLsbD k = true ↔ k < o.size := by
  cases o <;> interval_cases k <;> decide

/-- What a little-endian byte memory does with a store: reads of its size and address return what
was written, and no other byte changes. -/
structure RoundTrip (u : UnifiedMem) (a : Word) (o : StoreOp) (data : Word) : Prop where
  reads : ∀ i : LoadOp, i.size = o.size →
    read (write u a o.be data) true a i.funct3 = i.extend data
  frame : ∀ x, ¬ (a.toNat ≤ x ∧ x < a.toNat + o.size) →
    ramBytes (write u a o.be data) x = ramBytes u x

/-- No byte outside the written range changes. -/
theorem InOneRegion.frame (h : InOneRegion a) (u : UnifiedMem) (o : StoreOp) (data : Word) {x : ℕ}
    (hx : ¬ (a.toNat ≤ x ∧ x < a.toNat + o.size)) :
    ramBytes (write u a o.be data) x = ramBytes u x := by
  rw [h.ramBytes_write, store, if_neg]
  rintro ⟨h1, h2, h3⟩
  exact hx ⟨h1, by
    have hlt := (be_iff o (by omega)).mp h3
    omega⟩

/-- Two bytes put together determine both. -/
theorem append_byte_inj {x y x' y' : BitVec 8} : x ++ y = x' ++ y' ↔ x = x' ∧ y = y' := by
  constructor
  · intro h
    have hhigh := congrArg (BitVec.extractLsb' 8 8) h
    have hlow := congrArg (BitVec.extractLsb' 0 8) h
    rw [BitVec.extractLsb'_append_eq_left, BitVec.extractLsb'_append_eq_left] at hhigh
    rw [BitVec.extractLsb'_append_eq_right, BitVec.extractLsb'_append_eq_right] at hlow
    exact ⟨hhigh, hlow⟩
  · rintro ⟨rfl, rfl⟩
    rfl

/-- A halfword one byte into its word is read as the byte below it and the low byte written. -/
theorem InOneRegion.loadHalf_inside (h : InOneRegion a) (u : UnifiedMem) (data : Word)
    (hmod : a.toNat % 4 = 1) :
    loadHalf (ramBytes (write u a StoreOp.sh.be data)) (a.toNat - 1) =
      byte data 0 ++ ramBytes u (a.toNat - 1) := by
  have hnext : a.toNat - 1 + 1 = a.toNat := by omega
  have hbelow : ramBytes (write u a StoreOp.sh.be data) (a.toNat - 1) =
      ramBytes u (a.toNat - 1) := by
    apply h.frame u .sh data
    omega
  have hlow : ramBytes (write u a StoreOp.sh.be data) a.toNat = byte data 0 := by
    have hbe : StoreOp.sh.be.getLsbD (a.toNat - a.toNat) = true := by
      rw [Nat.sub_self]
      rfl
    rw [h.ramBytes_write, store, if_pos ⟨le_rfl, by omega, hbe⟩, Nat.sub_self]
  rw [loadHalf, hnext, hbelow, hlow]

/-- Away from that halfword every store is read back. -/
theorem InOneRegion.roundTrip (h : InOneRegion a) (u : UnifiedMem) {o : StoreOp} (data : Word)
    (hno : ¬ HalfwordInside a o.size) : RoundTrip u a o data where
  reads := by
    intro i hi
    rw [h.read_eq, hi, if_neg hno, h.ramBytes_write]
    exact loadValue_store _ _ hi data
  frame := fun _ hx => h.frame u o data hx

/-- A halfword store is read back if the halfword that is read is the one written. -/
theorem InOneRegion.roundTrip_inside_iff (h : InOneRegion a) (u : UnifiedMem) (data : Word)
    (hmod : a.toNat % 4 = 1) : RoundTrip u a .sh data ↔
      loadHalf (ramBytes (write u a StoreOp.sh.be data)) (a.toNat - 1) =
        data.extractLsb' 0 16 := by
  have hread : ∀ i : LoadOp, i.size = 2 → read (write u a StoreOp.sh.be data) true a i.funct3 =
      loadValue (ramBytes (write u a StoreOp.sh.be data)) (a.toNat - 1) i.funct3 := by
    intro i hi
    rw [h.read_eq, if_pos ⟨hi, hmod⟩]
  constructor
  · intro hr
    have hwide : (loadHalf (ramBytes (write u a StoreOp.sh.be data)) (a.toNat - 1)).setWidth 32 =
        (data.extractLsb' 0 16).setWidth 32 := (hread .lhu rfl).symm.trans (hr.reads .lhu rfl)
    have hnarrow := congrArg (BitVec.setWidth 16) hwide
    rwa [BitVec.setWidth_setWidth_of_le _ (by decide), BitVec.setWidth_setWidth_of_le _ (by decide),
      BitVec.setWidth_eq, BitVec.setWidth_eq] at hnarrow
  · intro heq
    refine ⟨?_, fun _ hx => h.frame u .sh data hx⟩
    intro i hi
    rw [hread i hi]
    cases i
    case lh => exact congrArg (BitVec.signExtend 32) heq
    case lhu => exact congrArg (BitVec.setWidth 32) heq
    case lb => exact absurd hi (by decide)
    case lbu => exact absurd hi (by decide)
    case lw => exact absurd hi (by decide)

/-- **When the RAM is a byte memory.** A store is read back, unless it is a halfword one byte into
its word: that comes back right only where the byte below it and both its bytes are the same. -/
theorem roundTrip_iff (h : InOneRegion a) (u : UnifiedMem) (o : StoreOp) (data : Word) :
    RoundTrip u a o data ↔
      ¬ HalfwordInside a o.size ∨
        (ramBytes u (a.toNat - 1) = byte data 0 ∧ byte data 1 = byte data 0) := by
  by_cases hin : HalfwordInside a o.size
  · obtain rfl : o = .sh := by
      have hsize := hin.1
      cases o
      case sh => rfl
      all_goals exact absurd hsize (by decide)
    have hdata : data.extractLsb' 0 16 = byte data 1 ++ byte data 0 := extractLsb'_half data 0
    rw [h.roundTrip_inside_iff u data hin.2, h.loadHalf_inside u data hin.2, hdata,
      append_byte_inj]
    constructor
    · rintro ⟨hlow, hbelow⟩
      exact Or.inr ⟨hbelow, hlow.symm⟩
    · rintro (hno | ⟨hbelow, hsame⟩)
      · exact absurd hin hno
      · exact ⟨hsame.symm, hbelow⟩
  · exact ⟨fun _ => Or.inl hin, fun _ => h.roundTrip u data hin⟩

/-- A halfword stored at `0x80000001` over an empty RAM. -/
theorem roundTrip_iff_instr_mem :
    InOneRegion 0x80000001#32 ∧
      (RoundTrip (fun _ => 0#32) 0x80000001#32 .sh 0xbbaa#32 ↔
        ¬ HalfwordInside 0x80000001#32 StoreOp.sh.size ∨
          (ramBytes (fun _ => 0#32) ((0x80000001#32 : Word).toNat - 1) = byte 0xbbaa#32 0 ∧
            byte 0xbbaa#32 1 = byte 0xbbaa#32 0)) :=
  ⟨by unfold InOneRegion; decide, roundTrip_iff (by unfold InOneRegion; decide) _ _ _⟩

/-- A halfword at an odd address is read back wrong. -/
theorem not_roundTrip_halfword :
    InOneRegion 0x80000001#32 ∧ ¬ RoundTrip (fun _ => 0#32) 0x80000001#32 .sh 0xbbaa#32 := by
  have hreg : InOneRegion 0x80000001#32 := by
    unfold InOneRegion
    decide
  refine ⟨hreg, fun hr => ?_⟩
  -- `lhu` returns `0xaa00`: the low byte written, above the byte below the address
  have hread := hr.reads .lhu rfl
  exact absurd hread (by decide)

end UnifiedMem

end Synapse32
