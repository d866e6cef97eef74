import Mathlib.Tactic

/-! # Ring buffers

A queue in a memory of `2 ^ w` cells, with a head, a tail and a count. A cycle may take the oldest
element and add one, also in a full buffer if it takes one as well. -/

/-- A ring buffer: the memory, the cell of the oldest element, the next free cell, and the number of
elements. -/
structure RingBuffer (w : ℕ) (α : Type*) where
  mem : BitVec w → α
  head : BitVec w
  tail : BitVec w
  count : BitVec (w + 1)

namespace RingBuffer

variable {w : ℕ} {α : Type*} {r : RingBuffer w α}

/-- The queued elements, the oldest first. -/
def contents (r : RingBuffer w α) : List α :=
  (List.range r.count.toNat).map fun k => r.mem (r.head + BitVec.ofNat w k)

/-- The count is in range and agrees with head and tail. -/
structure Valid (r : RingBuffer w α) : Prop where
  le : r.count.toNat ≤ 2 ^ w
  tail : r.tail = r.head + BitVec.ofNat w r.count.toNat

/-- The pointers agree with the count modulo the number of cells. -/
theorem Valid.tail_toNat (h : r.Valid) :
    r.tail.toNat = (r.head.toNat + r.count.toNat) % 2 ^ w := by
  rw [h.tail, BitVec.toNat_add, BitVec.toNat_ofNat, Nat.add_mod_mod]

/-- One cycle: take the oldest element, add one, or both. -/
def step (r : RingBuffer w α) (push : Option α) (pop : Bool) : RingBuffer w α where
  mem := match push with
    | some a => Function.update r.mem r.tail a
    | none => r.mem
  head := if pop then r.head + 1#w else r.head
  tail := if push.isSome then r.tail + 1#w else r.tail
  count :=
    if push.isSome && !pop then r.count + 1#(w + 1)
    else if !push.isSome && pop then r.count - 1#(w + 1)
    else r.count

/-- Drop everything. -/
def clear (r : RingBuffer w α) : RingBuffer w α :=
  { r with head := 0#w, tail := 0#w, count := 0#(w + 1) }

/-- There are as many contents as the counter says. -/
@[simp] theorem length_contents : r.contents.length = r.count.toNat := by simp [contents]

/-- A cleared buffer is valid. -/
theorem valid_clear : r.clear.Valid := ⟨by simp [clear], by simp [clear]⟩

/-- A cleared buffer is empty. -/
@[simp] theorem contents_clear : r.clear.contents = [] := rfl

/-- The contents are the cells from the head on. -/
theorem getElem?_contents {k : ℕ} (h : k < r.count.toNat) :
    r.contents[k]? = some (r.mem (r.head + BitVec.ofNat w k)) := by
  simp [contents, h]

/-- The first of the contents is the cell at the head. -/
theorem head?_contents (h : 0 < r.count.toNat) : r.contents.head? = some (r.mem r.head) := by
  rw [List.head?_eq_getElem?, getElem?_contents h]
  simp

/-- A cycle that a queue allows: it takes an element only from a queue that has one, and adds one
only if there is room for it. -/
structure Allows (r : RingBuffer w α) (push : Option α) (pop : Bool) : Prop where
  nonempty : pop = true → 0 < r.count.toNat
  room : push.isSome = true → pop = false → r.count.toNat < 2 ^ w

/-- The count after a cycle. -/
theorem count_step {push : Option α} {pop : Bool} (hv : r.Valid) (h : r.Allows push pop) :
    (r.step push pop).count.toNat = r.count.toNat - pop.toNat + push.toList.length := by
  have hle := hv.le
  have hpow : 2 ^ (w + 1) = 2 ^ w + 2 ^ w := by rw [pow_succ]; omega
  have hpos : 0 < 2 ^ w := Nat.two_pow_pos w
  cases push with
  | none =>
    cases hp : pop
    · rfl
    · have hcount := h.nonempty hp
      show (r.count - 1#(w + 1)).toNat = r.count.toNat - 1
      rw [BitVec.toNat_sub_of_le]
      · rw [BitVec.toNat_one (by omega)]
      · rw [BitVec.le_def, BitVec.toNat_one (by omega)]
        exact hcount
  | some a =>
    cases hp : pop
    · have hroom := h.room rfl hp
      show (r.count + 1#(w + 1)).toNat = r.count.toNat + 1
      rw [BitVec.toNat_add, BitVec.toNat_one (by omega), Nat.mod_eq_of_lt (by omega)]
    · have hcount := h.nonempty hp
      show r.count.toNat = r.count.toNat - 1 + 1
      omega

/-- **A cycle keeps count, head and tail in step.** -/
theorem Valid.step {push : Option α} {pop : Bool} (hv : r.Valid) (h : r.Allows push pop) :
    (r.step push pop).Valid := by
  have hcount := count_step hv h
  constructor
  · rw [hcount]
    have hle := hv.le
    cases push with
    | none => simp; omega
    | some a =>
      cases hp : pop
      · have hroom := h.room rfl hp
        simpa using hroom
      · have hpos := h.nonempty hp
        simp only [Bool.toNat_true, Option.toList_some, List.length_singleton]
        omega
  · rw [hcount]
    -- Both sides are `head + count`, the count up by the push.
    have hsplit : r.count.toNat + push.toList.length =
        pop.toNat + (r.count.toNat - pop.toNat + push.toList.length) := by
      cases hp : pop
      · simp
      · have hpos := h.nonempty hp
        simp only [Bool.toNat_true]
        omega
    have htail : (r.step push pop).tail =
        r.head + BitVec.ofNat w (r.count.toNat + push.toList.length) := by
      rw [BitVec.ofNat_add, ← BitVec.add_assoc, ← hv.tail]
      cases push <;> simp [RingBuffer.step]
    have hhead : (r.step push pop).head = r.head + BitVec.ofNat w pop.toNat := by
      cases pop <;> simp [RingBuffer.step]
    rw [htail, hhead, hsplit, BitVec.ofNat_add, BitVec.add_assoc]

/-- A cell of the queue is not the next free one. -/
theorem cell_ne_tail (hv : r.Valid) {k : ℕ} (hk : k < r.count.toNat)
    (hroom : 0 < k ∨ r.count.toNat < 2 ^ w) : r.head + BitVec.ofNat w k ≠ r.tail := by
  rw [hv.tail]
  intro h
  have hle := hv.le
  have hmod := congrArg BitVec.toNat ((BitVec.add_right_inj r.head).mp h)
  rw [BitVec.toNat_ofNat, BitVec.toNat_ofNat, Nat.mod_eq_of_lt (by omega)] at hmod
  rcases hle.lt_or_eq with hlt | heq
  · rw [Nat.mod_eq_of_lt hlt] at hmod
    omega
  · rw [heq, Nat.mod_self] at hmod
    omega

/-- **What the queue holds after a cycle**: the oldest element is gone if it was taken, and the new
one is the youngest. -/
theorem contents_step {push : Option α} {pop : Bool} (hv : r.Valid) (h : r.Allows push pop) :
    (r.step push pop).contents = r.contents.drop pop.toNat ++ push.toList := by
  have hcount := count_step hv h
  have hvalid := hv.step h
  have hhead : (r.step push pop).head = r.head + BitVec.ofNat w pop.toNat := by
    cases pop <;> simp [step]
  have hlen : (r.contents.drop pop.toNat).length = r.count.toNat - pop.toNat := by simp
  apply List.ext_getElem?
  intro k
  by_cases hk : k < r.count.toNat - pop.toNat
  · -- An old element: its cell is not the one that is written.
    have hcell : r.head + BitVec.ofNat w pop.toNat + BitVec.ofNat w k =
        r.head + BitVec.ofNat w (pop.toNat + k) := by
      rw [BitVec.ofNat_add, BitVec.add_assoc]
    have hkeep : (r.step push pop).mem (r.head + BitVec.ofNat w (pop.toNat + k)) =
        r.mem (r.head + BitVec.ofNat w (pop.toNat + k)) := by
      cases push with
      | none => rfl
      | some a =>
        apply Function.update_of_ne
        apply cell_ne_tail hv (by omega)
        cases hp : pop
        · exact .inr (h.room rfl hp)
        · exact .inl (by simp)
    rw [getElem?_contents (by omega), hhead, hcell, hkeep, List.getElem?_append_left (by omega),
      List.getElem?_drop, getElem?_contents (by omega)]
  · rw [List.getElem?_append_right (by omega), hlen]
    cases push with
    | none =>
      rw [List.getElem?_eq_none (by simp at hcount ⊢; omega)]
      simp
    | some a =>
      rcases Nat.lt_or_ge (r.count.toNat - pop.toNat) k with hgt | hle
      · rw [List.getElem?_eq_none (by simp at hcount ⊢; omega)]
        simp
        omega
      · -- The new element is in the cell that was free.
        obtain rfl : k = r.count.toNat - pop.toNat := by omega
        have hcell : (r.step (some a) pop).head + BitVec.ofNat w (r.count.toNat - pop.toNat) =
            r.tail := by
          have htail := hvalid.tail
          rw [hcount] at htail
          have hnext : (r.step (some a) pop).tail = r.tail + 1#w := rfl
          rw [hnext, Option.toList_some, List.length_singleton, BitVec.ofNat_add,
            ← BitVec.add_assoc] at htail
          exact ((BitVec.add_left_inj (1#w)).mp htail).symm
        rw [getElem?_contents (by simp at hcount ⊢; omega), hcell]
        simp [step]

/-! ## Other memories -/

/-- The ring in another memory. -/
def inMem (r : RingBuffer w α) (mem : BitVec w → α) : RingBuffer w α := { r with mem := mem }

variable {mem : BitVec w → α}

/-- A valid buffer is so with any memory. -/
theorem Valid.inMem (hv : r.Valid) : (r.inMem mem).Valid := ⟨hv.le, hv.tail⟩

/-- What a buffer allows it allows with any memory. -/
theorem Allows.inMem {push : Option α} {pop : Bool} (h : r.Allows push pop) :
    (r.inMem mem).Allows push pop := ⟨h.nonempty, h.room⟩

/-- **What the free cells hold does not matter**: a ring with the same elements in another memory
has the same elements after a cycle. -/
theorem contents_step_inMem {push : Option α} {pop : Bool} (hv : r.Valid) (h : r.Allows push pop)
    (hsame : (r.inMem mem).contents = r.contents) :
    ((r.inMem mem).step push pop).contents = (r.step push pop).contents := by
  rw [contents_step hv h, contents_step hv.inMem h.inMem, hsame]

/-- The oldest element is then the same. -/
theorem head_inMem (hsame : (r.inMem mem).contents = r.contents) (hpos : 0 < r.count.toNat) :
    mem r.head = r.mem r.head := by
  have hhead := congrArg List.head? hsame
  rw [head?_contents hpos, head?_contents (show 0 < (r.inMem mem).count.toNat from hpos)] at hhead
  exact Option.some.inj hhead

end RingBuffer
