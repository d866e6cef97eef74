import Synapse32.Rtl.InstrDefines
import Synapse32.Lib.ByteLanes

/-! # Data cache

`rtl/dcache.v`. Set, word, way and tag numbers are naturals: the slices of an address are quotients
and remainders of it. A block RAM row holds every way, so an array is a function of the row and
the way. The MSHR file is the list of its first `mshr_count` entries. The statistics counters have
no reader in the design. -/

namespace Synapse32

open ByteLanes

/-- The parameters of `dcache.v` and the checks of `g_invalid_parameters`; `NUM_WAYS` is
`2 ^ plruLevels`. -/
structure DcacheParams where
  plruLevels : ℕ
  setIndexBits : ℕ
  wordOffsetBits : ℕ
  numMshr : ℕ
  plruLevels_le : plruLevels ≤ 3
  setIndexBits_pos : 1 ≤ setIndexBits
  wordOffsetBits_pos : 1 ≤ wordOffsetBits
  wordIndexBits_le : setIndexBits + wordOffsetBits ≤ 10
  numMshr_pos : 1 ≤ numMshr
  numMshr_le : numMshr ≤ 16

namespace DcacheParams

/-- Values that `g_invalid_parameters` lets pass. -/
def ofValues (plruLevels setIndexBits wordOffsetBits numMshr : ℕ)
    (h : plruLevels ≤ 3 ∧ 1 ≤ setIndexBits ∧ 1 ≤ wordOffsetBits ∧
      setIndexBits + wordOffsetBits ≤ 10 ∧ 1 ≤ numMshr ∧ numMshr ≤ 16) : DcacheParams :=
  ⟨plruLevels, setIndexBits, wordOffsetBits, numMshr, h.1, h.2.1, h.2.2.1, h.2.2.2.1, h.2.2.2.2.1,
    h.2.2.2.2.2⟩

variable (P : DcacheParams)

/-- `NUM_WAYS`. -/
def numWays : ℕ := 2 ^ P.plruLevels

/-- `SETS`. -/
def sets : ℕ := 2 ^ P.setIndexBits

/-- `WORDS`. -/
def words : ℕ := 2 ^ P.wordOffsetBits

/-! ## Slices of an address -/

/-- `addr[31:2]`. -/
def wordAddr (addr : Word) : ℕ := addr.toNat / 4

/-- `req_index`: the row of the data array. -/
def index (addr : Word) : ℕ := wordAddr addr % (P.sets * P.words)

/-- `req_word`. -/
def wordOf (addr : Word) : ℕ := wordAddr addr % P.words

/-- `req_line`. -/
def lineOf (addr : Word) : ℕ := wordAddr addr / P.words

/-- The set of a line. -/
def setOf (line : ℕ) : ℕ := line % P.sets

/-- The tag of a line. -/
def tagOf (line : ℕ) : ℕ := line / P.sets

/-- The row of a word of a set. -/
def row (set word : ℕ) : ℕ := set * P.words + word

/-- The word address of a word of a line. -/
def lineWord (line word : ℕ) : ℕ := line * P.words + word

/-- The line with a given tag in a given set. -/
def line (tag set : ℕ) : ℕ := tag * P.sets + set

end DcacheParams

/-! ## Registers and ports -/

/-- An MSHR: a missed line and the store bytes waiting for it. -/
structure Mshr where
  line : ℕ
  be : ℕ → BitVec 4
  data : ℕ → Word

/-- `eng_state`. -/
inductive EngState
  | idle | tag | victim | evictRead | evictWrite | fill | scan | bypass
  deriving DecidableEq, Repr

/-- The registers of the engine. -/
structure Engine where
  state : EngState
  clean : Bool
  set : ℕ
  way : ℕ
  tag : ℕ
  word : ℕ
  evictBuf : ℕ → Word
  scanSet : ℕ

/-- The read registers of the arrays, and what they were read for. -/
structure ReadRegs where
  data : ℕ → Word
  tag : ℕ → ℕ
  valid : ℕ → Bool
  index : ℕ
  fresh : Bool

/-- The arrays, per row or set and way, and the MSHRs. -/
structure Lines where
  data : ℕ → ℕ → Word
  tag : ℕ → ℕ → ℕ
  valid : ℕ → ℕ → Bool
  dirty : ℕ → ℕ → Bool
  mshr : List Mshr

/-- The registers of `dcache.v`. -/
structure Dcache where
  lines : Lines
  rd : ReadRegs
  eng : Engine
  plru : ℕ → ℕ → Bool

/-- The core-side inputs of `dcache.v`. -/
structure DcacheReq where
  nextAddr : Word
  cleanReq : Bool
  req : Bool
  addr : Word
  we : Bool
  be : BitVec 4
  wdata : Word
  loadType : BitVec 3

/-- The memory-side inputs of `dcache.v`. -/
structure MemRsp where
  gnt : Bool
  rvalid : Bool
  rdata : Word

/-- A request at the memory port, with the `mem_line` flag that says it goes to RAM. -/
structure MemReq where
  addr : Word
  we : Bool
  be : BitVec 4
  wdata : Word
  line : Bool

/-! ## Helpers of the source's loops -/

/-- The last index below `n` that satisfies `p`, or 0: a loop that overwrites its result. -/
def lastIndex (n : ℕ) (p : ℕ → Bool) : ℕ :=
  (List.range n).foldl (fun acc i => if p i then i else acc) 0

/-- Some index below `n` satisfies `p`. -/
def anyIndex (n : ℕ) (p : ℕ → Bool) : Bool := (List.range n).any p

/-- Replace one entry of a two-dimensional array. -/
def update2 {α : Type*} (f : ℕ → ℕ → α) (a b : ℕ) (v : α) : ℕ → ℕ → α :=
  fun x y => if x = a ∧ y = b then v else f x y

/-- `format_load`: the addressed byte or halfword, extended. -/
def formatLoad (word : Word) (offset : ℕ) (kind : BitVec 3) : Word :=
  let shifted := word >>> (8 * offset)
  if kind = 0b000#3 then (shifted.extractLsb' 0 8).signExtend 32
  else if kind = 0b100#3 then (shifted.extractLsb' 0 8).setWidth 32
  else if kind = 0b001#3 then (shifted.extractLsb' 0 16).signExtend 32
  else if kind = 0b101#3 then (shifted.extractLsb' 0 16).setWidth 32
  else if kind = 0b010#3 then word
  else 0#32

/-- `plru_victim`: follow the node bits from the root, 0 to the left. -/
def plruVictim (levels : ℕ) (tree : ℕ → Bool) : ℕ :=
  ((List.range levels).foldl
    (fun (p : ℕ × ℕ) _ => (2 * p.1 + (tree p.2).toNat, 2 * p.2 + 1 + (tree p.2).toNat)) (0, 0)).1

/-- `plru_touch`: point every node on the way's path away from it. -/
def plruTouch (levels : ℕ) (tree : ℕ → Bool) (way : ℕ) : ℕ → Bool :=
  ((List.range levels).foldl
    (fun (p : (ℕ → Bool) × ℕ) level =>
      let branch := way.testBit (levels - 1 - level)
      (Function.update p.1 p.2 (!branch), 2 * p.2 + 1 + branch.toNat)) (tree, 0)).1

namespace Dcache

variable (P : DcacheParams) (d : Dcache) (r : DcacheReq) (m : MemRsp)

/-- The registers after reset. The block RAMs and their read registers keep what they held. -/
def reset (data : ℕ → ℕ → Word) (tag : ℕ → ℕ → ℕ) (dataRd : ℕ → Word) (tagRd : ℕ → ℕ) :
    Dcache where
  lines := ⟨data, tag, fun _ _ => false, fun _ _ => false, []⟩
  rd := ⟨dataRd, tagRd, fun _ => false, 0, false⟩
  eng := ⟨.idle, false, 0, 0, 0, 0, fun _ => 0#32, 0⟩
  plru := fun _ _ => false

/-! ## Lookup -/

/-- `cacheable`. -/
def cacheable : Bool := isRam r.addr

/-- `addr[1:0]`. -/
def byteOffset : ℕ := r.addr.toNat % 4

/-- `lane_be`. -/
def laneBe : BitVec 4 := r.be <<< byteOffset r

/-- `lane_data`. -/
def laneData : Word := r.wdata <<< (8 * byteOffset r)

/-- `mshr_empty`. -/
def mshrEmpty : Bool := d.lines.mshr.isEmpty

/-- `mshr_full`. -/
def mshrFull : Bool := d.lines.mshr.length == P.numMshr

/-- The oldest MSHR; it is read only while there is one. -/
def head : Mshr := d.lines.mshr.headD ⟨0, fun _ => 0#4, fun _ => 0#32⟩

/-- `fill_write`. -/
def fillWrite : Bool := d.eng.state == .fill && m.rvalid

/-- `eng_word_index`. -/
def engWordIndex : ℕ := d.eng.word % P.words

/-- `fill_last`. -/
def fillLast : Bool := fillWrite d m && engWordIndex P d == P.words - 1

/-- `lookup_block`. -/
def lookupBlock : Bool := d.eng.state == .victim || d.eng.state == .bypass || fillWrite d m

/-- `lookup`. -/
def lookup : Bool :=
  r.req && cacheable r && !lookupBlock d m && d.rd.fresh && d.rd.index == P.index r.addr

/-- `way_hit`. -/
def wayHit (i : ℕ) : Bool := d.rd.valid i && d.rd.tag i == P.tagOf (P.lineOf r.addr)

/-- `hit_any`. -/
def hitAny : Bool := anyIndex P.numWays (wayHit P d r)

/-- `hit_way`. -/
def hitWay : ℕ := lastIndex P.numWays (wayHit P d r)

/-- `hit_word`. -/
def hitWord : Word := if hitAny P d r then d.rd.data (hitWay P d r) else 0#32

/-- `mshr_match`. -/
def mshrMatch (j : ℕ) : Bool :=
  match d.lines.mshr[j]? with
  | some e => e.line == P.lineOf r.addr
  | none => false

/-- `match_any`. -/
def matchAny : Bool := anyIndex P.numMshr (mshrMatch P d r)

/-- `match_index`. -/
def matchIndex : ℕ := lastIndex P.numMshr (mshrMatch P d r)

/-- `match_filling`. -/
def matchFilling : Bool := matchAny P d r && matchIndex P d r == 0 && d.eng.state == .fill

/-- `store_hit`. -/
def storeHit : Bool := lookup P d r m && r.we && hitAny P d r

/-- `store_merge`. -/
def storeMerge : Bool :=
  lookup P d r m && r.we && !hitAny P d r && matchAny P d r && !matchFilling P d r

/-- `store_alloc`. -/
def storeAlloc : Bool :=
  lookup P d r m && r.we && !hitAny P d r && !matchAny P d r && !mshrFull P d

/-- `load_hit`. -/
def loadHit : Bool := lookup P d r m && !r.we && hitAny P d r

/-- `load_alloc`. -/
def loadAlloc : Bool :=
  lookup P d r m && !r.we && !hitAny P d r && !matchAny P d r && !mshrFull P d

/-- `served`. -/
def served : Bool := storeHit P d r m || storeMerge P d r m || storeAlloc P d r m || loadHit P d r m

/-- `alloc`. -/
def alloc : Bool := storeAlloc P d r m || loadAlloc P d r m

/-- `bypass_go`. -/
def bypassGo : Bool := r.req && !cacheable r && d.eng.state == .idle && mshrEmpty d

/-! ## Core-side outputs -/

/-- `gnt`. -/
def gnt : Bool := served P d r m || (bypassGo d r && m.gnt)

/-- `rvalid`. -/
def rvalid : Bool := served P d r m || (m.rvalid && (bypassGo d r || d.eng.state == .bypass))

/-- `rdata`. -/
def rdata : Word :=
  if loadHit P d r m then formatLoad (hitWord P d r) (byteOffset r) r.loadType else m.rdata

/-- `|dirty_q`. -/
def dirtyAny : Bool :=
  anyIndex P.sets fun set => anyIndex P.numWays fun way => d.lines.dirty way set

/-- `clean`. -/
def clean : Bool := !dirtyAny P d && mshrEmpty d && d.eng.state == .idle

/-! ## Memory-side outputs -/

/-- `mem_line`. -/
def memLine : Bool := d.eng.state == .evictWrite || d.eng.state == .fill

/-- `mem_req`. -/
def memReq : Bool := memLine d || bypassGo d r

/-- `mem_addr`. -/
def memAddr : Word :=
  if d.eng.state = .evictWrite then
    BitVec.ofNat 32 (P.lineWord (P.line d.eng.tag d.eng.set) (engWordIndex P d) * 4)
  else if d.eng.state = .fill then
    BitVec.ofNat 32 (P.lineWord (head d).line (engWordIndex P d) * 4)
  else r.addr

/-- `mem_we`. -/
def memWe : Bool := d.eng.state == .evictWrite || (!memLine d && r.we)

/-- `mem_be`. -/
def memBe : BitVec 4 := if memLine d then 0b1111#4 else r.be

/-- `mem_wdata`. -/
def memWdata : Word :=
  if d.eng.state = .evictWrite then d.eng.evictBuf (engWordIndex P d)
  else if memLine d then 0#32
  else r.wdata

/-- The request at the memory port. -/
def memRequest : MemReq := ⟨memAddr P d r, memWe d r, memBe d r, memWdata P d r, memLine d⟩

/-! ## Array ports -/

/-- `claim_tag`. -/
def claimTag : Bool := d.eng.state == .tag

/-- `claim_evict`. -/
def claimEvict : Bool := d.eng.state == .evictRead && d.eng.word != P.words

/-- `read_index`: the engine's row, else a waiting request's, else that of the next MEM address. -/
def readIndex : ℕ :=
  if claimTag d then P.row d.eng.set 0
  else if claimEvict P d then P.row d.eng.set (engWordIndex P d)
  else if r.req && cacheable r && !lookup P d r m then P.index r.addr
  else P.index r.nextAddr

/-- `read_set`. -/
def readSet : ℕ := readIndex P d r m / P.words

/-- `data_write`. -/
def dataWrite : Bool := fillWrite d m || storeHit P d r m

/-- `write_index`. -/
def writeIndex : ℕ :=
  if fillWrite d m then P.row d.eng.set (engWordIndex P d) else P.index r.addr

/-- `write_way`. -/
def writeWay : ℕ := if fillWrite d m then d.eng.way else hitWay P d r

/-- `write_be`. -/
def writeBe : BitVec 4 := if fillWrite d m then 0b1111#4 else laneBe r

/-- `write_data`: a fill word carries the MSHR's bytes over the word read. -/
def writeData : Word :=
  if fillWrite d m then
    merge ((head d).be (engWordIndex P d)) ((head d).data (engWordIndex P d)) m.rdata
  else laneData r

/-- `victim`: an invalid way, else the PLRU way; for FENCE.I the first dirty way. -/
def victim : ℕ :=
  ((List.range P.numWays).find? fun k =>
    if d.eng.clean then d.lines.dirty k d.eng.set else !d.lines.valid k d.eng.set).getD
    (plruVictim P.plruLevels (d.plru d.eng.set))

/-- `victim_dirty`. -/
def victimDirty : Bool := d.lines.dirty (victim P d) d.eng.set

/-- `scan_dirty`. -/
def scanDirty : Bool := anyIndex P.numWays fun n => d.lines.dirty n d.eng.scanSet

/-- `set_change`. -/
def setChange : Bool := (d.eng.state == .victim && !d.eng.clean) || fillLast P d m

/-- `read_stale`. -/
def readStale : Bool :=
  (dataWrite P d r m && writeIndex P d r m == readIndex P d r m) ||
    (setChange P d m && d.eng.set == readSet P d r m)

/-! ## The clock edge -/

/-- `data_mem` after the edge. -/
def nextData : ℕ → ℕ → Word :=
  if dataWrite P d r m then
    update2 d.lines.data (writeIndex P d r m) (writeWay P d r m)
      (merge (writeBe d r m) (writeData P d r m)
        (d.lines.data (writeIndex P d r m) (writeWay P d r m)))
  else d.lines.data

/-- `tag_mem` after the edge. -/
def nextTag : ℕ → ℕ → ℕ :=
  if fillLast P d m then update2 d.lines.tag d.eng.set d.eng.way (P.tagOf (head d).line)
  else d.lines.tag

/-- `valid_q` after the edge. -/
def nextValid : ℕ → ℕ → Bool :=
  -- A line that FENCE.I writes back stays valid.
  if d.eng.state == .victim && !d.eng.clean then
    update2 d.lines.valid (victim P d) d.eng.set false
  else if fillLast P d m then update2 d.lines.valid d.eng.way d.eng.set true
  else d.lines.valid

/-- `dirty_q` after the edge. -/
def nextDirty : ℕ → ℕ → Bool :=
  if d.eng.state == .victim then update2 d.lines.dirty (victim P d) d.eng.set false
  else if fillLast P d m then
    update2 d.lines.dirty d.eng.way d.eng.set (anyIndex P.words fun w => (head d).be w != 0#4)
  else if storeHit P d r m then
    update2 d.lines.dirty (hitWay P d r) (P.setOf (P.lineOf r.addr)) true
  else d.lines.dirty

/-- An MSHR with the bytes of a store added. -/
def mergeStore (e : Mshr) : Mshr :=
  if r.we then
    { e with
      be := Function.update e.be (P.wordOf r.addr) (e.be (P.wordOf r.addr) ||| laneBe r)
      data := Function.update e.data (P.wordOf r.addr)
        (merge (laneBe r) (laneData r) (e.data (P.wordOf r.addr))) }
  else e

/-- The MSHRs after the edge: an entry is allocated, or takes store bytes, or entry 0 retires. -/
def nextMshr : List Mshr :=
  if alloc P d r m then
    d.lines.mshr ++ [mergeStore P r ⟨P.lineOf r.addr, fun _ => 0#4, fun _ => 0#32⟩]
  else if storeMerge P d r m then d.lines.mshr.modify (matchIndex P d r) (mergeStore P r)
  else if fillLast P d m then d.lines.mshr.tail
  else d.lines.mshr

/-- The read registers after the edge: the rows as they were before it. -/
def nextRd : ReadRegs where
  data := d.lines.data (readIndex P d r m)
  tag := d.lines.tag (readSet P d r m)
  valid := fun x => d.lines.valid x (readSet P d r m)
  index := readIndex P d r m
  fresh := !readStale P d r m

/-- The tree bits after the edge. -/
def nextPlru : ℕ → ℕ → Bool :=
  if fillLast P d m then
    Function.update d.plru d.eng.set (plruTouch P.plruLevels (d.plru d.eng.set) d.eng.way)
  else if storeHit P d r m || loadHit P d r m then
    Function.update d.plru (P.setOf (P.lineOf r.addr))
      (plruTouch P.plruLevels (d.plru (P.setOf (P.lineOf r.addr))) (hitWay P d r))
  else d.plru

/-- The engine after the edge. -/
def nextEng : Engine :=
  match d.eng.state with
  | .idle =>
    if bypassGo d r then
      -- A bypass that is answered at once needs no state.
      if m.gnt && !m.rvalid then { d.eng with state := .bypass } else d.eng
    else if !mshrEmpty d then
      { d.eng with state := .tag, clean := false, set := P.setOf (head d).line }
    else if r.cleanReq && dirtyAny P d then { d.eng with state := .scan }
    else d.eng
  | .scan =>
    -- A miss interrupts the scan.
    if !mshrEmpty d || !r.cleanReq || !dirtyAny P d then { d.eng with state := .idle }
    else if scanDirty P d then { d.eng with state := .tag, clean := true, set := d.eng.scanSet }
    else { d.eng with scanSet := (d.eng.scanSet + 1) % P.sets }
  | .tag => { d.eng with state := .victim }
  | .victim =>
    { d.eng with
      way := victim P d
      tag := d.rd.tag (victim P d)
      word := 0
      state := if victimDirty P d then .evictRead else if d.eng.clean then .scan else .fill }
  | .evictRead =>
    -- The row asked for in the cycle before arrives now.
    let buf :=
      if d.eng.word = 0 then d.eng.evictBuf
      else Function.update d.eng.evictBuf (d.eng.word - 1) (d.rd.data d.eng.way)
    if d.eng.word = P.words then { d.eng with state := .evictWrite, word := 0, evictBuf := buf }
    else { d.eng with word := d.eng.word + 1, evictBuf := buf }
  | .evictWrite =>
    if m.rvalid then
      if engWordIndex P d = P.words - 1 then
        { d.eng with state := if d.eng.clean then .scan else .fill, word := 0 }
      else { d.eng with word := d.eng.word + 1 }
    else d.eng
  | .fill =>
    if fillLast P d m then { d.eng with state := .idle, word := d.eng.word + 1 }
    else if fillWrite d m then { d.eng with word := d.eng.word + 1 }
    else d.eng
  | .bypass => if m.rvalid then { d.eng with state := .idle } else d.eng

/-- The clock edge of `dcache.v`. -/
def next : Dcache where
  lines :=
    ⟨nextData P d r m, nextTag P d m, nextValid P d m, nextDirty P d r m, nextMshr P d r m⟩
  rd := nextRd P d r m
  eng := nextEng P d r m
  plru := nextPlru P d r m

end Dcache

end Synapse32
