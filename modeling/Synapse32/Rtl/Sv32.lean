import Synapse32.Rtl.Dcache

/-! # The Sv32 MMU

`rtl/mmu`: the permission checks, the TLB, the sequential walker of `sv32_mmu.v`, and the
combinational `sv32_page_walker.v`. The `update_accessed` and `update_dirty` outputs of the checks
are constant 0 and have no reader. -/

namespace Synapse32

/-! ## Permission checks -/

/-- `page_fault` of `sv32_instr_check.v`. -/
def sv32InstrCheck (translateEnable addrValidIn : Bool) (privilegeMode : BitVec 2)
    (leafPte : Word) : Bool :=
  translateEnable &&
    (!addrValidIn || !leafPte.getLsbD 3 || (privilegeMode == privU && !leafPte.getLsbD 4) ||
      (privilegeMode == privS && leafPte.getLsbD 4) || !leafPte.getLsbD 6)

/-- The data access that `sv32_data_check.v` judges. -/
structure DataCheckIn where
  privilegeMode : BitVec 2
  sum : Bool
  mxr : Bool
  dataRdEn : Bool
  dataWrReq : Bool

namespace DataCheckIn

variable (x : DataCheckIn) (leafPte : Word)

/-- `permission_fault`. -/
def permissionFault : Bool :=
  !leafPte.getLsbD 0 || (x.privilegeMode == privU && !leafPte.getLsbD 4) ||
    (x.privilegeMode == privS && leafPte.getLsbD 4 && !x.sum) ||
    ((x.dataRdEn && !x.dataWrReq) && !(leafPte.getLsbD 1 || (x.mxr && leafPte.getLsbD 3))) ||
    (x.dataWrReq && !leafPte.getLsbD 2) || !leafPte.getLsbD 6 ||
    (x.dataWrReq && !leafPte.getLsbD 7)

/-- `load_page_fault` of `sv32_data_check.v`. -/
def loadPageFault (translateEnable addrValidIn : Bool) : Bool :=
  translateEnable && (!addrValidIn || x.permissionFault leafPte) && (x.dataRdEn && !x.dataWrReq)

/-- `store_page_fault` of `sv32_data_check.v`. -/
def storePageFault (translateEnable addrValidIn : Bool) : Bool :=
  translateEnable && (!addrValidIn || x.permissionFault leafPte) && x.dataWrReq

end DataCheckIn

/-! ## TLB -/

/-- An entry of `sv32_tlb.v`. -/
structure TlbEntry where
  valid : Bool
  tag : BitVec 20
  megapage : Bool
  pte : Word

/-- The match condition of both lookup ports. -/
def TlbEntry.matches (e : TlbEntry) (vaddr : Word) : Bool :=
  e.valid &&
    if e.megapage then e.tag.extractLsb' 10 10 == vaddr.extractLsb' 22 10
    else e.tag == vaddr.extractLsb' 12 20

/-- The registers of `sv32_tlb.v`. -/
structure Tlb where
  entry : ℕ → TlbEntry
  nextVictim : ℕ

namespace Tlb

variable (entries : ℕ) (t : Tlb) (vaddr : Word)

/-- `INDEX_WIDTH`. -/
def indexWidth : ℕ :=
  if entries ≤ 2 then 1 else if entries ≤ 4 then 2 else if entries ≤ 8 then 3
  else if entries ≤ 16 then 4 else if entries ≤ 32 then 5 else 6

/-- The TLB after reset. -/
def reset : Tlb := ⟨fun _ => ⟨false, 0#20, false, 0#32⟩, 0⟩

/-- `instr_hit` and `data_hit`. -/
def hit : Bool := anyIndex entries fun i => (t.entry i).matches vaddr

/-- The entry a lookup loop ends on. -/
def found : TlbEntry := t.entry (lastIndex entries fun i => (t.entry i).matches vaddr)

/-- `instr_pte` and `data_pte`. -/
def pte : Word := if t.hit entries vaddr then (t.found entries vaddr).pte else 0#32

/-- `instr_megapage` and `data_megapage`. -/
def megapage : Bool := t.hit entries vaddr && (t.found entries vaddr).megapage

/-- The clock edge of `sv32_tlb.v`. -/
def next (flush fillEn : Bool) (fillVaddr fillPte : Word) (fillMegapage : Bool) : Tlb :=
  if flush then { t with entry := fun i => { t.entry i with valid := false } }
  else if fillEn then
    { entry := Function.update t.entry t.nextVictim
        ⟨true, fillVaddr.extractLsb' 12 20, fillMegapage, fillPte⟩
      nextVictim :=
        if t.nextVictim = (entries - 1) % 2 ^ indexWidth entries then 0
        else (t.nextVictim + 1) % 2 ^ indexWidth entries }
  else t

end Tlb

/-! ## Page-table entries -/

/-- `pte_usable`: V set, not W without R, and a PPN that fits 32-bit physical space. -/
def pteUsable (pte : Word) : Bool :=
  pte.getLsbD 0 && pte.extractLsb' 30 2 == 0#2 && !(!pte.getLsbD 1 && pte.getLsbD 2)

/-- `pte_is_leaf`. -/
def pteIsLeaf (pte : Word) : Bool := pte.getLsbD 1 || pte.getLsbD 3

/-- `translated_addr`. -/
def translatedAddr (pte : Word) (megapage : Bool) (vaddr : Word) : Word :=
  if megapage then pte.extractLsb' 20 10 ++ vaddr.extractLsb' 12 10 ++ vaddr.extractLsb' 0 12
  else pte.extractLsb' 10 20 ++ vaddr.extractLsb' 0 12

/-! ## The walker -/

/-- `walk_state`. -/
inductive WalkState
  | idle | level1 | level0
  deriving DecidableEq, Repr

/-- `walk_side`. -/
inductive WalkSide
  | data | instr
  deriving DecidableEq, Repr

/-- A held walk fault. -/
structure HeldFault where
  valid : Bool
  vaddr : Word

namespace HeldFault

/-- `instr_fault_match` and `data_fault_match`. -/
def isMatch (f : HeldFault) (vaddr : Word) : Bool :=
  f.valid && f.vaddr.extractLsb' 12 20 == vaddr.extractLsb' 12 20

/-- A held fault after the edge: dropped when its requester moves to another page or software
fences, unless a walk of its side fails. -/
def next (f : HeldFault) (flushTlb translateEnable : Bool) (vaddr : Word) (failed : Option Word) :
    HeldFault :=
  match failed with
  | some walkVaddr => ⟨true, walkVaddr⟩
  | none =>
    if flushTlb || !translateEnable ||
        (f.valid && f.vaddr.extractLsb' 12 20 != vaddr.extractLsb' 12 20)
    then { f with valid := false } else f

end HeldFault

/-- The registered fill of the TLB. -/
structure TlbFill where
  en : Bool
  vaddr : Word
  pte : Word
  megapage : Bool

/-- The registers of the walker. -/
structure Walker where
  state : WalkState
  aborted : Bool
  side : WalkSide
  vaddr : Word
  level0Base : Word
  accepted : Bool

/-- The registers of `sv32_mmu.v`. -/
structure Sv32Mmu where
  tlb : Tlb
  fill : TlbFill
  instrFault : HeldFault
  dataFault : HeldFault
  walk : Walker

/-- The inputs of `sv32_mmu.v`. -/
structure MmuIn where
  flushTlb : Bool
  satp : Word
  dataSum : Bool
  dataMxr : Bool
  instrTranslateEnable : Bool
  instrVirtualAddr : Word
  instrPrivMode : BitVec 2
  dataTranslateEnable : Bool
  dataVirtualAddr : Word
  dataRdEn : Bool
  dataWrReq : Bool
  dataPrivMode : BitVec 2
  walkGnt : Bool
  walkRvalid : Bool
  walkRdata : Word

/-- `root_pt_base`. -/
def rootPtBase (satp : Word) : Word := satp.extractLsb' 0 20 ++ 0#12

/-- The address of the level-1 entry. -/
def level1Addr (base vaddr : Word) : Word := base + (0#20 ++ (vaddr.extractLsb' 22 10 ++ 0#2))

/-- The address of the level-0 entry. -/
def level0Addr (base vaddr : Word) : Word := base + (0#20 ++ (vaddr.extractLsb' 12 10 ++ 0#2))

/-- The table a pointer entry points to. -/
def tableBase (pte : Word) : Word := pte.extractLsb' 10 20 ++ 0#12

namespace Sv32Mmu

/-- `ENTRIES` of the TLB, at its default. -/
def tlbEntries : ℕ := 8

variable (u : Sv32Mmu) (x : MmuIn)

/-- The registers after reset. -/
def reset : Sv32Mmu where
  tlb := Tlb.reset
  fill := ⟨false, 0#32, 0#32, false⟩
  instrFault := ⟨false, 0#32⟩
  dataFault := ⟨false, 0#32⟩
  walk := ⟨.idle, false, .data, 0#32, 0#32, false⟩

/-! ### Translation outputs -/

/-- `tlb_instr_hit`. -/
def tlbInstrHit : Bool := u.tlb.hit tlbEntries x.instrVirtualAddr

/-- `tlb_instr_pte`. -/
def tlbInstrPte : Word := u.tlb.pte tlbEntries x.instrVirtualAddr

/-- `tlb_instr_megapage`. -/
def tlbInstrMegapage : Bool := u.tlb.megapage tlbEntries x.instrVirtualAddr

/-- `tlb_data_hit`. -/
def tlbDataHit : Bool := u.tlb.hit tlbEntries x.dataVirtualAddr

/-- `tlb_data_pte`. -/
def tlbDataPte : Word := u.tlb.pte tlbEntries x.dataVirtualAddr

/-- `tlb_data_megapage`. -/
def tlbDataMegapage : Bool := u.tlb.megapage tlbEntries x.dataVirtualAddr

/-- `instr_fault_match`. -/
def instrFaultMatch : Bool := u.instrFault.isMatch x.instrVirtualAddr

/-- `data_fault_match`. -/
def dataFaultMatch : Bool := u.dataFault.isMatch x.dataVirtualAddr

/-- `instr_phys_addr`. -/
def instrPhysAddr : Word :=
  if !x.instrTranslateEnable then x.instrVirtualAddr
  else translatedAddr (tlbInstrPte u x) (tlbInstrMegapage u x) x.instrVirtualAddr

/-- `data_phys_addr`. -/
def dataPhysAddr : Word :=
  if !x.dataTranslateEnable then x.dataVirtualAddr
  else translatedAddr (tlbDataPte u x) (tlbDataMegapage u x) x.dataVirtualAddr

/-- `data_fault_addr`. -/
def dataFaultAddr : Word := x.dataVirtualAddr

/-- `instr_ready`. -/
def instrReady : Bool := !x.instrTranslateEnable || tlbInstrHit u x || instrFaultMatch u x

/-- `data_ready`. -/
def dataReady : Bool := !x.dataTranslateEnable || tlbDataHit u x || dataFaultMatch u x

/-- `instr_perm_fault`. -/
def instrPermFault : Bool :=
  sv32InstrCheck (x.instrTranslateEnable && tlbInstrHit u x) true x.instrPrivMode (tlbInstrPte u x)

/-- The access at the data port. -/
def dataCheckIn : DataCheckIn :=
  ⟨x.dataPrivMode, x.dataSum, x.dataMxr, x.dataRdEn, x.dataWrReq⟩

/-- `instr_page_fault`. -/
def instrPageFault : Bool :=
  x.instrTranslateEnable && (instrPermFault u x || instrFaultMatch u x)

/-- `data_load_page_fault`. -/
def dataLoadPageFault : Bool :=
  x.dataTranslateEnable &&
    ((dataCheckIn x).loadPageFault (tlbDataPte u x) (x.dataTranslateEnable && tlbDataHit u x)
        true ||
      (dataFaultMatch u x && x.dataRdEn && !x.dataWrReq))

/-- `data_store_page_fault`. -/
def dataStorePageFault : Bool :=
  x.dataTranslateEnable &&
    ((dataCheckIn x).storePageFault (tlbDataPte u x) (x.dataTranslateEnable && tlbDataHit u x)
        true ||
      (dataFaultMatch u x && x.dataWrReq))

/-! ### Walk port -/

/-- `data_walk_needed`. -/
def dataWalkNeeded : Bool :=
  x.dataTranslateEnable && (x.dataRdEn || x.dataWrReq) && !tlbDataHit u x && !dataFaultMatch u x &&
    !u.fill.en

/-- `instr_walk_needed`. -/
def instrWalkNeeded : Bool :=
  x.instrTranslateEnable && !tlbInstrHit u x && !instrFaultMatch u x && !u.fill.en

/-- `walk_req`. -/
def walkReq : Bool := u.walk.state != .idle && !u.walk.accepted

/-- `walk_addr`. -/
def walkAddr : Word :=
  if u.walk.state = .level1 then level1Addr (rootPtBase x.satp) u.walk.vaddr
  else level0Addr u.walk.level0Base u.walk.vaddr

/-! ### The clock edge -/

/-- The walk is answered in this cycle, and no fence has overtaken it. -/
def walkAnswered : Bool :=
  u.walk.state != .idle && x.walkRvalid && !(u.walk.aborted || x.flushTlb)

/-- The answer ends the walk in a fault: an invalid entry, a misaligned megapage, or a pointer at
the last level. -/
def walkFails : Bool :=
  !pteUsable x.walkRdata ||
    (pteIsLeaf x.walkRdata && u.walk.state == .level1 && x.walkRdata.extractLsb' 10 10 != 0#10) ||
    (!pteIsLeaf x.walkRdata && u.walk.state == .level0)

/-- The address of a walk of one side that fails at this edge. -/
def failedWalk (side : WalkSide) : Option Word :=
  if walkAnswered u x && walkFails u x && u.walk.side == side then some u.walk.vaddr else none

/-- The registered fill after the edge. -/
def nextFill : TlbFill :=
  -- A leaf enters the TLB one cycle after its answer.
  if walkAnswered u x && !walkFails u x && pteIsLeaf x.walkRdata then
    ⟨true, u.walk.vaddr, x.walkRdata, u.walk.state == .level1⟩
  else { u.fill with en := false }

/-- The walker after the edge. -/
def nextWalk : Walker :=
  match u.walk.state with
  | .idle =>
    let idle := { u.walk with accepted := false, aborted := false }
    -- The data side goes first.
    if dataWalkNeeded u x then
      { idle with side := .data, vaddr := x.dataVirtualAddr, state := .level1 }
    else if instrWalkNeeded u x then
      { idle with side := .instr, vaddr := x.instrVirtualAddr, state := .level1 }
    else idle
  | _ =>
    let held := { u.walk with
      aborted := u.walk.aborted || x.flushTlb
      accepted := !x.walkRvalid && (u.walk.accepted || x.walkGnt) }
    -- A pointer at the first level leads to the second; what else is answered ends the walk.
    if !x.walkRvalid then held
    else if walkAnswered u x && !walkFails u x && !pteIsLeaf x.walkRdata then
      { held with level0Base := tableBase x.walkRdata, state := .level0 }
    else { held with state := .idle }

/-- The clock edge of `sv32_mmu.v`. -/
def next : Sv32Mmu where
  tlb := u.tlb.next tlbEntries x.flushTlb u.fill.en u.fill.vaddr u.fill.pte u.fill.megapage
  fill := nextFill u x
  instrFault := u.instrFault.next x.flushTlb x.instrTranslateEnable x.instrVirtualAddr
    (failedWalk u x .instr)
  dataFault := u.dataFault.next x.flushTlb x.dataTranslateEnable x.dataVirtualAddr
    (failedWalk u x .data)
  walk := nextWalk u x

end Sv32Mmu

/-! ## The combinational walker -/

/-- The entry `sv32_page_walker.v` is given for one level. -/
structure PteRead where
  addr : Word
  value : Word
  backed : Bool

/-- The outputs of `sv32_page_walker.v`. -/
structure WalkResult where
  physAddr : Word
  addrValid : Bool
  leafPteAddr : Word
  leafPteValue : Word
  deriving DecidableEq

/-- `sv32_page_walker.v`, whose `satp` input has no reader. -/
def sv32PageWalker (translateEnable : Bool) (virtualAddr : Word) (l1 l0 : PteRead) : WalkResult :=
  let fault : WalkResult := ⟨virtualAddr, false, 0#32, 0#32⟩
  if translateEnable then
    if l1.backed && l1.value.getLsbD 0 && l1.value.extractLsb' 30 2 == 0#2 &&
        !(!l1.value.getLsbD 1 && l1.value.getLsbD 2) then
      -- A leaf at the first level is a megapage, which must be aligned.
      if l1.value.getLsbD 1 || l1.value.getLsbD 3 then
        if l1.value.extractLsb' 10 10 = 0#10 then
          ⟨l1.value.extractLsb' 20 10 ++ virtualAddr.extractLsb' 12 10 ++
            virtualAddr.extractLsb' 0 12, true, l1.addr, l1.value⟩
        else fault
      else if l0.backed && l0.value.getLsbD 0 && l0.value.extractLsb' 30 2 == 0#2 &&
          !(!l0.value.getLsbD 1 && l0.value.getLsbD 2) &&
          (l0.value.getLsbD 1 || l0.value.getLsbD 3) then
        ⟨l0.value.extractLsb' 10 20 ++ virtualAddr.extractLsb' 0 12, true, l0.addr, l0.value⟩
      else fault
    else fault
  else ⟨virtualAddr, true, 0#32, 0#32⟩

end Synapse32
