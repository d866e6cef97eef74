import Synapse32.Rtl.Dcache

/-! # Instruction cache

`rtl/icache.v`. As in the data cache, set, word, way and tag numbers are naturals, the slices of an
address are quotients and remainders of it, and a block RAM row holds every way. -/

namespace Synapse32

/-- The parameters of `icache.v` and the checks of `g_invalid_parameters`. -/
structure IcacheParams where
  numWays : ℕ
  setIndexBits : ℕ
  wordOffsetBits : ℕ
  numWays_pos : 1 ≤ numWays
  numWays_le : numWays ≤ 16
  setIndexBits_pos : 1 ≤ setIndexBits
  wordOffsetBits_pos : 1 ≤ wordOffsetBits
  wordIndexBits_le : setIndexBits + wordOffsetBits ≤ 10

namespace IcacheParams

/-- Values that `g_invalid_parameters` lets pass. -/
def ofValues (numWays setIndexBits wordOffsetBits : ℕ)
    (h : 1 ≤ numWays ∧ numWays ≤ 16 ∧ 1 ≤ setIndexBits ∧ 1 ≤ wordOffsetBits ∧
      setIndexBits + wordOffsetBits ≤ 10) : IcacheParams :=
  ⟨numWays, setIndexBits, wordOffsetBits, h.1, h.2.1, h.2.2.1, h.2.2.2.1, h.2.2.2.2⟩

variable (P : IcacheParams)

/-- `WAY_BITS`. -/
def wayBits : ℕ := if P.numWays < 3 then 1 else if P.numWays < 5 then 2 else if P.numWays < 9 then 3
  else 4

/-- `LAST_WAY`. -/
def lastWay : ℕ := P.numWays - 1

/-- The geometry of the lines: an address has the same set, word and tag as in a data cache with
the same `SET_INDEX_BITS` and `WORD_OFFSET_BITS`. -/
def lines : DcacheParams where
  plruLevels := 0
  setIndexBits := P.setIndexBits
  wordOffsetBits := P.wordOffsetBits
  numMshr := 1
  plruLevels_le := by decide
  setIndexBits_pos := P.setIndexBits_pos
  wordOffsetBits_pos := P.wordOffsetBits_pos
  wordIndexBits_le := P.wordIndexBits_le
  numMshr_pos := by decide
  numMshr_le := by decide

end IcacheParams

/-! ## Registers and ports -/

/-- `state`. -/
inductive IcacheState
  | idle | fill | refill | bypass
  deriving DecidableEq, Repr

/-- The registers of `icache.v`. -/
structure Icache where
  data : ℕ → ℕ → Word
  tag : ℕ → ℕ → ℕ
  dataRd : ℕ → Word
  tagRd : ℕ → ℕ
  valid : ℕ → ℕ → Bool
  validRd : ℕ → Bool
  victimQ : ℕ → ℕ
  state : IcacheState
  fillLine : ℕ
  fillWord : ℕ
  fillWay : ℕ
  fillDead : Bool

/-- The inputs of `icache.v`. -/
structure IcacheIn where
  flush : Bool
  nextPc : Word
  req : Bool
  addr : Word
  memGnt : Bool
  memRvalid : Bool
  memRdata : Word

namespace Icache

variable (P : IcacheParams) (c : Icache) (x : IcacheIn)

/-- The registers after reset. The block RAMs and their read registers keep what they held. -/
def reset (data : ℕ → ℕ → Word) (tag : ℕ → ℕ → ℕ) (dataRd : ℕ → Word) (tagRd : ℕ → ℕ) :
    Icache where
  data := data
  tag := tag
  dataRd := dataRd
  tagRd := tagRd
  valid := fun _ _ => false
  validRd := fun _ => false
  victimQ := fun _ => 0
  state := .idle
  fillLine := 0
  fillWord := 0
  fillWay := 0
  fillDead := false

/-! ## Lookup -/

/-- `cacheable`. -/
def cacheable : Bool := isRam x.addr

/-- `set`. -/
def set : ℕ := P.lines.setOf (P.lines.lineOf x.addr)

/-- `tag`, that of the fetch address. -/
def reqTag : ℕ := P.lines.tagOf (P.lines.lineOf x.addr)

/-- `way_hit`. -/
def wayHit (i : ℕ) : Bool := c.validRd i && c.tagRd i == reqTag P x

/-- `|way_hit`. -/
def hitAny : Bool := anyIndex P.numWays (wayHit P c x)

/-- `hit_data`. -/
def hitData : Word :=
  if hitAny P c x then c.dataRd (lastIndex P.numWays (wayHit P c x)) else 0#32

/-- `victim`: an invalid way, else the set's round-robin pointer. -/
def victim : ℕ :=
  ((List.range P.numWays).find? fun j => !c.validRd j).getD (c.victimQ (set P x))

/-- `lookup`. -/
def lookup : Bool := x.req && cacheable x && c.state == .idle

/-- `hit`. -/
def hit : Bool := lookup c x && hitAny P c x

/-- `miss`. -/
def miss : Bool := lookup c x && !hitAny P c x

/-- `bypass_req`. -/
def bypassReq : Bool := x.req && !cacheable x && c.state == .idle

/-- `fill_set`. -/
def fillSet : ℕ := P.lines.setOf c.fillLine

/-- `fill_tag`. -/
def fillTag : ℕ := P.lines.tagOf c.fillLine

/-- `fill_write`. -/
def fillWrite : Bool := c.state == .fill && x.memRvalid

/-- `fill_last`. -/
def fillLast : Bool := fillWrite c x && c.fillWord == P.lines.words - 1

/-! ## Outputs -/

/-- `gnt`. -/
def gnt : Bool := hit P c x || (bypassReq c x && x.memGnt)

/-- `rvalid`. -/
def rvalid : Bool := hit P c x || (x.memRvalid && (bypassReq c x || c.state == .bypass))

/-- `rdata`. -/
def rdata : Word := if hit P c x then hitData P c x else x.memRdata

/-- `mem_req`. -/
def memReq : Bool := c.state == .fill || bypassReq c x

/-- `mem_addr`. -/
def memAddr : Word :=
  if c.state = .fill then BitVec.ofNat 32 (P.lines.lineWord c.fillLine c.fillWord * 4) else x.addr

/-! ## The clock edge -/

/-- `next_index`. -/
def nextIndex : ℕ := P.lines.index x.nextPc

/-- `next_set`. -/
def nextSet : ℕ := P.lines.setOf (P.lines.lineOf x.nextPc)

/-- `data_mem` after the edge: a fill writes its way's slice. -/
def nextData : ℕ → ℕ → Word :=
  if fillWrite c x then update2 c.data (P.lines.row (fillSet P c) c.fillWord) c.fillWay x.memRdata
  else c.data

/-- `tag_mem` after the edge. -/
def nextTag : ℕ → ℕ → ℕ :=
  if fillLast P c x then update2 c.tag (fillSet P c) c.fillWay (fillTag P c) else c.tag

/-- `valid_q` after the edge. -/
def nextValid : ℕ → ℕ → Bool :=
  if x.flush then fun _ _ => false
  -- A fill that a flush has overtaken leaves its way invalid.
  else if fillLast P c x && !c.fillDead then update2 c.valid c.fillWay (fillSet P c) true
  else c.valid

/-- `valid_rd_q` after the edge. -/
def nextValidRd (k : ℕ) : Bool := !x.flush && c.valid k (nextSet P x)

/-- `victim_q` after the edge. -/
def nextVictimQ : ℕ → ℕ :=
  if fillLast P c x then
    Function.update c.victimQ (fillSet P c)
      (if c.victimQ (fillSet P c) = P.lastWay then 0
      else (c.victimQ (fillSet P c) + 1) % 2 ^ P.wayBits)
  else c.victimQ

/-- `state` after the edge. -/
def nextState : IcacheState :=
  match c.state with
  | .idle =>
    if miss P c x then .fill
    else if bypassReq c x && x.memGnt && !x.memRvalid then .bypass
    else .idle
  | .fill => if fillLast P c x then .refill else .fill
  -- One cycle for the arrays to be read again.
  | .refill => .idle
  | .bypass => if x.memRvalid then .idle else .bypass

/-- The clock edge of `icache.v`. -/
def next : Icache where
  data := nextData P c x
  tag := nextTag P c x
  dataRd := c.data (nextIndex P x)
  tagRd := c.tag (nextSet P x)
  valid := nextValid P c x
  validRd := nextValidRd P c x
  victimQ := nextVictimQ P c x
  state := nextState P c x
  fillLine := if miss P c x then P.lines.lineOf x.addr else c.fillLine
  fillWord :=
    if miss P c x then 0
    else if fillWrite c x then (c.fillWord + 1) % P.lines.words
    else c.fillWord
  fillWay := if miss P c x then victim P c x else c.fillWay
  fillDead := if miss P c x then false else c.fillDead || (c.state == .fill && x.flush)

end Icache

end Synapse32
