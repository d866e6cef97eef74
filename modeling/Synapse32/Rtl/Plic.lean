import Synapse32.Rtl.InstrDefines

/-! # Platform-level interrupt controller

`rtl/core_modules/plic.v`. The sources `1` to `NUM_SOURCES` are `Fin NUM_SOURCES` here, source `j`
of the one being `j - 1` of the other. Reset is not an input: a run starts from the registers that
reset leaves. -/

namespace Synapse32

/-- `NUM_SOURCES`. The read multiplexer pads with `31 - NUM_SOURCES` bits, so that there are at most
`31`. -/
structure NumSources where
  val : ℕ
  pos : 1 ≤ val
  le : val ≤ 31

/-- The interrupt sources. -/
abbrev Source (N : NumSources) := Fin N.val

/-- The two contexts: context 0 drives the machine external interrupt, context 1 the supervisor
one. -/
inductive PlicContext
  | machine | supervisor
  deriving DecidableEq, Repr

/-- The other context. -/
def PlicContext.other : PlicContext → PlicContext
  | .machine => .supervisor
  | .supervisor => .machine

/-- The registers of `plic.v`. -/
structure Plic (N : NumSources) where
  priorityQ : Source N → BitVec 3
  pending : Source N → Bool
  gatewayBusy : Source N → Bool
  enableM : Source N → Bool
  enableS : Source N → Bool
  thresholdM : BitVec 3
  thresholdS : BitVec 3

/-- The inputs of `plic.v` in one cycle. -/
structure PlicIn (N : NumSources) where
  addr : Word
  writeData : Word
  writeEnable : Bool
  readEnable : Bool
  sourceIrq : Source N → Bool

namespace Plic

variable {N : NumSources}

/-- `PRIORITY_BASE + 4 * j`. -/
def priorityAddr (j : Source N) : Word := 0x0C000000#32 + BitVec.ofNat 32 (4 * (j + 1))

/-- `PENDING_ADDR`. -/
def pendingAddr : Word := 0x0C001000#32

/-- `ENABLE_M_ADDR`. -/
def enableMAddr : Word := 0x0C002000#32

/-- `ENABLE_S_ADDR`. -/
def enableSAddr : Word := 0x0C002080#32

/-- `THRESHOLD_M_ADDR`. -/
def thresholdMAddr : Word := 0x0C200000#32

/-- `CLAIM_M_ADDR`. -/
def claimMAddr : Word := 0x0C200004#32

/-- `THRESHOLD_S_ADDR`. -/
def thresholdSAddr : Word := 0x0C201000#32

/-- `CLAIM_S_ADDR`. -/
def claimSAddr : Word := 0x0C201004#32

/-- The registers after reset. -/
def reset : Plic N where
  priorityQ := fun _ => 1#3
  pending := fun _ => false
  gatewayBusy := fun _ => false
  enableM := fun _ => false
  enableS := fun _ => false
  thresholdM := 0#3
  thresholdS := 0#3

/-- `s[ID_BITS-1:0]`, the ID of a source. -/
def sourceId (j : Source N) : BitVec 5 := BitVec.ofNat 5 (j + 1)

variable (s : Plic N) (i : PlicIn N)

/-! ## Arbitration -/

/-- `best_source`: a scan of the sources that carries the best one so far and its priority. -/
def bestSource (enabled : Source N → Bool) (threshold : BitVec 3) : BitVec 5 :=
  ((List.finRange N.val).foldl
    (fun best j =>
      -- The comparison is strict: of equal priorities the first source stays.
      if s.pending j && enabled j && decide (best.2 < s.priorityQ j) then
        (sourceId j, s.priorityQ j)
      else best)
    (0#5, threshold)).1

/-- `claim_id_m`. -/
def claimIdM : BitVec 5 := bestSource s s.enableM s.thresholdM

/-- `claim_id_s`. -/
def claimIdS : BitVec 5 := bestSource s s.enableS s.thresholdS

/-- `plic_access`, which is `plic_valid`. -/
def plicAccess : Bool := isPlicMem i.addr

/-- `claim_read_m`. -/
def claimReadM : Bool :=
  i.readEnable && plicAccess i && i.addr == claimMAddr && claimIdM s != 0#5

/-- `claim_read_s`. -/
def claimReadS : Bool :=
  i.readEnable && plicAccess i && i.addr == claimSAddr && claimIdS s != 0#5

/-- `complete_write`. -/
def completeWrite : Bool :=
  i.writeEnable && plicAccess i && (i.addr == claimMAddr || i.addr == claimSAddr)

/-- `machine_external_interrupt`. -/
def machineExternalInterrupt : Bool := claimIdM s != 0#5

/-- `supervisor_external_interrupt`. -/
def supervisorExternalInterrupt : Bool := claimIdS s != 0#5

/-! ## The clock edge -/

/-- A register write to `addr`. -/
def writes (addr : Word) : Bool := i.writeEnable && plicAccess i && i.addr == addr

/-- The claim of a cycle takes source `j`. -/
def claimTakes (j : Source N) : Bool :=
  (claimReadM s i && claimIdM s == sourceId j) || (claimReadS s i && claimIdS s == sourceId j)

/-- The completion of a cycle is for source `j` and finds its gateway busy. -/
def completes (j : Source N) : Bool :=
  completeWrite i && i.writeData == BitVec.ofNat 32 (j + 1) && s.gatewayBusy j

/-- The clock edge of `plic.v`. Where the gateway sets `pending` in the cycle of a claim, the set
stands later in the block and wins. -/
def next : Plic N where
  priorityQ j :=
    if writes i (priorityAddr j) then i.writeData.extractLsb' 0 3 else s.priorityQ j
  pending j :=
    -- A source that is still active when it completes is pending again at once.
    if completes s i j then
      if i.sourceIrq j then true else if claimTakes s i j then false else s.pending j
    else if !s.gatewayBusy j && i.sourceIrq j then true
    else if claimTakes s i j then false
    else s.pending j
  gatewayBusy j :=
    if completes s i j then
      if i.sourceIrq j then s.gatewayBusy j else false
    else if !s.gatewayBusy j && i.sourceIrq j then true
    else s.gatewayBusy j
  enableM := if writes i enableMAddr then fun j => i.writeData.getLsbD (j + 1) else s.enableM
  enableS := if writes i enableSAddr then fun j => i.writeData.getLsbD (j + 1) else s.enableS
  thresholdM := if writes i thresholdMAddr then i.writeData.extractLsb' 0 3 else s.thresholdM
  thresholdS := if writes i thresholdSAddr then i.writeData.extractLsb' 0 3 else s.thresholdS

/-! ## Reads -/

/-- A register with one bit a source, as a word; bit 0 is zero. -/
def sourceWord (f : Source N → Bool) : Word :=
  (BitVec.ofBoolListLE (false :: List.ofFn f)).setWidth 32

/-- `read_data`. -/
def readData : Word :=
  if i.readEnable && plicAccess i then
    if i.addr = pendingAddr then sourceWord s.pending
    else if i.addr = enableMAddr then sourceWord s.enableM
    else if i.addr = enableSAddr then sourceWord s.enableS
    else if i.addr = thresholdMAddr then s.thresholdM.setWidth 32
    else if i.addr = thresholdSAddr then s.thresholdS.setWidth 32
    else if i.addr = claimMAddr then (claimIdM s).setWidth 32
    else if i.addr = claimSAddr then (claimIdS s).setWidth 32
    else
      match (List.finRange N.val).find? fun j => i.addr == priorityAddr j with
      | some j => (s.priorityQ j).setWidth 32
      | none => 0#32
  else 0#32

end Plic

end Synapse32
