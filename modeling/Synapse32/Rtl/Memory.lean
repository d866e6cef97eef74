import Synapse32.Rtl.Dcache

/-! # Memory adapter and backing RAM

`rtl/mem_adapter.v` answers one access at a time with a fixed latency. `rtl/unified_mem.v` is the
RAM behind it, both regions in one array; its page-table side ports are tied off in `top.v`. -/

namespace Synapse32

open ByteLanes

/-- An access at the storage side of an adapter. -/
structure StoreReq where
  addr : Word
  we : Bool
  be : BitVec 4
  wdata : Word

/-- The registers of `g_registered`; `g_combinational` has none. -/
structure MemAdapter where
  busy : Bool
  count : ℕ
  held : StoreReq
  rdata : Word
  rvalid : Bool

namespace MemAdapter

variable (latency : ℕ) (a : MemAdapter) (req : Bool) (q : StoreReq)

/-- The registers after reset. -/
def reset : MemAdapter := ⟨false, 0, ⟨0#32, false, 0#4, 0#32⟩, 0#32, false⟩

/-- `COUNT_WIDTH`. -/
def countWidth : ℕ :=
  if latency < 3 then 1 else if latency < 5 then 2 else if latency < 9 then 3
  else if latency < 17 then 4 else 8

/-- `LAST`. -/
def last : ℕ := (latency - 1) % 2 ^ countWidth latency

/-- `gnt`: only while idle, and not in the cycle a response is presented. -/
def gnt : Bool := if latency = 0 then req else req && !a.busy && !a.rvalid

/-- `sample_now`. -/
def sampleNow : Bool := a.busy && a.count == last latency

/-- `sample_on_accept`. -/
def sampleOnAccept : Bool := gnt latency a req && latency == 1

/-- `rvalid`. -/
def rvalidOut : Bool := if latency = 0 then req else a.rvalid

/-- `rdata`. -/
def rdataOut (storeRdata : Word) : Word := if latency = 0 then storeRdata else a.rdata

/-- `store_req`. -/
def storeReq : Bool := if latency = 0 then req else a.busy || gnt latency a req

/-- `store_addr`, `store_we`, `store_be` and `store_wdata`. -/
def store : StoreReq := if latency = 0 then q else if a.busy then a.held else q

/-- `write_fire`. -/
def writeFire : Bool :=
  if latency = 0 then req && q.we
  else (sampleNow latency a && a.held.we) || (sampleOnAccept latency a req && q.we)

/-- `read_fire`. -/
def readFire : Bool :=
  if latency = 0 then req && !q.we
  else (sampleNow latency a && !a.held.we) || (sampleOnAccept latency a req && !q.we)

/-- The clock edge of `mem_adapter.v`. -/
def next (storeRdata : Word) : MemAdapter :=
  if latency = 0 then a
  else if gnt latency a req then
    if sampleOnAccept latency a req then
      { a with held := q, rdata := storeRdata, rvalid := true }
    else { a with held := q, busy := true, count := 1, rvalid := false }
  else if sampleNow latency a then
    { a with rdata := storeRdata, rvalid := true, busy := false, count := 0 }
  else if a.busy then { a with count := (a.count + 1) % 2 ^ countWidth latency, rvalid := false }
  else { a with rvalid := false }

end MemAdapter

/-! ## Backing RAM -/

/-- `instr_ram`: the words of both RAM regions. -/
abbrev UnifiedMem := ℕ → Word

namespace UnifiedMem

/-- `MEM_SIZE` as `top.v` sets it: 64 MB and 1 MB of words. -/
def memSize : ℕ := 17039360

/-- `phys_to_local_addr`; `none` for `32'hFFFFFFFF`. -/
def physToLocal (addr : Word) : Option ℕ :=
  if isInstrMem addr then some (addr - 0x80000000#32).toNat
  else if isDataMem addr then some ((addr - 0x10000000#32) + 0x04000000#32).toNat
  else none

/-- `phys_read_word`. -/
def physReadWord (u : UnifiedMem) (addr : Word) : Word :=
  match physToLocal addr with
  | some l => if l / 4 < memSize then u (l / 4) else 0#32
  | none => 0#32

/-- A word of the RAM, zero past its end. -/
def wordAt (u : UnifiedMem) (w : ℕ) : Word := if w < memSize then u w else 0#32

/-- `instr`: the fetch port. -/
def fetch (u : UnifiedMem) (addr : Word) : Word :=
  match physToLocal addr with
  | some l => if l / 4 < memSize then u (l / 4) else 0x00000013#32
  | none => 0x00000013#32

/-- `instr_p2`: the data port's read, which may reach into the next word. -/
def read (u : UnifiedMem) (en : Bool) (addr : Word) (loadType : BitVec 3) : Word :=
  if en then
    match physToLocal addr with
    | none => 0#32
    | some l =>
      let pair := wordAt u (l / 4 + 1) ++ wordAt u (l / 4)
      let byteData := pair.extractLsb' (8 * (l % 4)) 8
      let halfData :=
        if l % 4 = 3 then pair.extractLsb' 24 16 else pair.extractLsb' (16 * (l % 4 / 2)) 16
      let wordData := pair.extractLsb' (8 * (l % 4)) 32
      if loadType = 0b000#3 then byteData.signExtend 32
      else if loadType = 0b100#3 then byteData.setWidth 32
      else if loadType = 0b001#3 then halfData.signExtend 32
      else if loadType = 0b101#3 then halfData.setWidth 32
      else if loadType = 0b010#3 then wordData
      else 0#32
  else 0#32

/-- The write of the data port: the enabled bytes from `addr` on, which may reach into the next
word. -/
def write (u : UnifiedMem) (addr : Word) (be : BitVec 4) (data : Word) : UnifiedMem :=
  match physToLocal addr with
  | none => u
  | some l =>
    if l / 4 < memSize then
      fun w =>
        if w = l / 4 ∨ (w = l / 4 + 1 ∧ w < memSize) then
          ofBytes fun k =>
            if l ≤ 4 * w + k ∧ 4 * w + k < l + 4 ∧ be.getLsbD (4 * w + k - l) = true then
              byte data (4 * w + k - l)
            else byte (u w) k
        else u w
    else u

end UnifiedMem

end Synapse32
