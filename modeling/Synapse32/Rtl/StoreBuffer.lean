import Synapse32.Rtl.Dcache

/-! # Store buffer

`rtl/store_buffer.v`: a FIFO of writes as a shift register, entry 0 the oldest. -/

namespace Synapse32

/-- A write that waits for the data port. -/
structure StoreEntry where
  addr : Word
  be : BitVec 4
  data : Word
  ram : Bool

/-- The registers of `store_buffer.v`. -/
structure StoreBuffer where
  slot : ℕ → StoreEntry
  count : ℕ

namespace StoreBuffer

variable (depth : ℕ) (b : StoreBuffer)

/-- `COUNT_WIDTH`. -/
def countWidth : ℕ :=
  if depth < 2 then 1 else if depth < 4 then 2 else if depth < 8 then 3
  else if depth < 16 then 4 else 8

/-- `DEPTH_COUNT`. -/
def depthCount : ℕ := depth % 2 ^ countWidth depth

/-- The registers after reset. -/
def reset : StoreBuffer := ⟨fun _ => ⟨0#32, 0#4, 0#32, false⟩, 0⟩

/-- `empty`. -/
def empty : Bool := b.count == 0

/-- `full`. -/
def full : Bool := b.count == depthCount depth

/-- `tail`: the slot that a push goes to. -/
def tail (pop : Bool) : ℕ :=
  if pop then (b.count + 2 ^ countWidth depth - 1) % 2 ^ countWidth depth else b.count

/-- `drained`: empty once this cycle's push and pop are done. -/
def drained (push pop : Bool) : Bool := tail depth b pop == 0 && !push

/-- `match`: some entry writes the word of `addr`. -/
def hasMatch (addr : Word) : Bool :=
  anyIndex depth fun i =>
    decide (i < b.count) && DcacheParams.wordAddr (b.slot i).addr == DcacheParams.wordAddr addr

/-- A slot after the edge; the last one has nothing behind it to shift in. -/
def nextSlot (push : Bool) (e : StoreEntry) (pop : Bool) (j : ℕ) : StoreEntry :=
  if j + 1 < depth then
    if push && j == tail depth b pop then e
    else if pop then b.slot (j + 1)
    else b.slot j
  -- The last slot is written only by a push that fills the buffer.
  else if j + 1 == depth && push && tail depth b pop ==
      (depthCount depth + 2 ^ countWidth depth - 1) % 2 ^ countWidth depth then e
  else b.slot j

/-- The clock edge of `store_buffer.v`. -/
def next (push : Bool) (e : StoreEntry) (pop : Bool) : StoreBuffer where
  slot := nextSlot depth b push e pop
  count := (tail depth b pop + push.toNat) % 2 ^ countWidth depth

end StoreBuffer

end Synapse32
