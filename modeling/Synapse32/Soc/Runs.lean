import Synapse32.Rtl.Top
import Synapse32.Core.Fences
import Synapse32.Core.MemAccess
import Synapse32.Data.Origin
import Synapse32.Data.Settled
import Synapse32.Cache.Fetch
import Synapse32.Mmu.Derivation

/-! # The parts of the SoC

In a run of the SoC each of its parts runs as that part does alone, under the inputs that the others
give it. So what holds over the runs of a part holds in the SoC; what the parts promise each other
is proved here: `satp` changes only with a flush of the TLB, and the walker is answered only where
it has asked. -/

namespace Synapse32

namespace Top

variable (P : TopParams) (m : PowerOn) (ins : ℕ → TopIn)

/-! ## Each part runs as it does alone -/

/-- What the core is given in each cycle of a run. -/
def cpuIns (n : ℕ) : CpuIn := cpuIn P (run P m ins n) (ins n)

/-- What the MMU is given in each cycle of a run. -/
def mmuIns (n : ℕ) : MmuIn := mmuIn P (run P m ins n) (ins n)

/-- What the data side is given in each cycle of a run. -/
def dataIns (n : ℕ) : DataIn := dataIn P (run P m ins n) (ins n)

/-- What the instruction cache is given in each cycle of a run. -/
def icacheIns (n : ℕ) : IcacheIn := icacheIn P (run P m ins n) (ins n)

variable {P m ins}

/-- The core runs as it does alone under the same inputs. -/
theorem run_cpu (n : ℕ) : (run P m ins n).cpu = RiscvCpu.run (cpuIns P m ins) n := by
  induction n with
  | zero => rfl
  | succ n ih => exact congrArg (fun c => RiscvCpu.next c (cpuIns P m ins n)) ih

/-- The MMU runs as it does alone under the same inputs. -/
theorem run_mmu (n : ℕ) : (run P m ins n).mmu = Sv32Mmu.run (mmuIns P m ins) n := by
  induction n with
  | zero => rfl
  | succ n ih => exact congrArg (fun u => Sv32Mmu.next u (mmuIns P m ins n)) ih

/-- The front end holds the instructions of the program. -/
theorem frontInv_run (n : ℕ) : ∃ programPc, RiscvCpu.FrontInv (run P m ins n).cpu programPc := by
  rw [run_cpu]
  exact ⟨_, RiscvCpu.frontInv_runFrom RiscvCpu.idle_reset n⟩

/-- The instruction cache runs as it does alone under the same inputs. -/
theorem run_icache (n : ℕ) :
    (run P m ins n).icache = Icache.run P.icache (reset m).icache (icacheIns P m ins) n := by
  induction n with
  | zero => rfl
  | succ n ih => exact congrArg (fun c => Icache.next P.icache c (icacheIns P m ins n)) ih

/-- The data side runs as it does alone under the same inputs. -/
theorem run_bus (n : ℕ) :
    (run P m ins n).bus = DataBus.run P.bus (reset m).bus (dataIns P m ins) n := by
  induction n with
  | zero => rfl
  | succ n ih => exact congrArg (fun b => DataBus.next P.bus b (dataIns P m ins n)) ih

/-- The registers after reset satisfy the invariant. -/
theorem busInv_reset : DataBus.BusInv P.bus (reset m).bus := DataBus.busInv_reset _ _ _ _ _

/-! ## The walk port -/

/-- **The owner of the data port is a walk that waits.** -/
theorem accepted_of_walkOwner (n : ℕ) (h : (run P m ins n).bus.walkOwner = true) :
    (run P m ins n).mmu.walk.state ≠ .idle ∧ (run P m ins n).mmu.walk.accepted = true := by
  induction n with
  | zero => exact absurd h Bool.false_ne_true
  | succ n ih =>
    set s := run P m ins n
    have hnext : (run P m ins (n + 1)).bus.walkOwner =
        if DataBus.dcacheRvalid P.bus s.bus (dataIns P m ins n) then false
        else if DataBus.dcacheGnt P.bus s.bus (dataIns P m ins n) then
          DataBus.walkSel P.bus s.bus (dataIns P m ins n)
        else s.bus.walkOwner := rfl
    have hwalk : (run P m ins (n + 1)).mmu.walk = Sv32Mmu.nextWalk s.mmu (mmuIns P m ins n) := rfl
    rw [hnext] at h
    split at h
    · exact absurd h Bool.false_ne_true
    rename_i hr
    have hv : (mmuIns P m ins n).walkRvalid = false := by
      change (DataBus.dcacheRvalid P.bus s.bus (dataIns P m ins n) && _) = false
      rw [Bool.eq_false_of_not_eq_true hr, Bool.false_and]
    rw [hwalk]
    split at h
    · -- A walk request is granted.
      rename_i hg
      have hgnt : (mmuIns P m ins n).walkGnt = true := by
        change (DataBus.dcacheGnt P.bus s.bus (dataIns P m ins n) &&
          DataBus.walkSel P.bus s.bus (dataIns P m ins n)) = true
        rw [hg, h]
        rfl
      have hreq : Sv32Mmu.walkReq s.mmu = true := by
        simp only [DataBus.walkSel, Bool.and_eq_true] at h
        exact h.1.1
      simp only [Sv32Mmu.walkReq, Bool.and_eq_true, bne_iff_ne] at hreq
      rw [Sv32Mmu.nextWalk_of_wait hreq.1 hv, hgnt]
      exact ⟨hreq.1, Bool.or_true _⟩
    · obtain ⟨hs, ha⟩ := ih h
      rw [Sv32Mmu.nextWalk_of_wait hs hv]
      refine ⟨hs, ?_⟩
      change (s.mmu.walk.accepted || _) = true
      rw [ha]
      rfl

/-- **What surrounds the MMU in the SoC.** -/
theorem walkPort : Sv32Mmu.WalkPort (mmuIns P m ins) where
  root n h := by
    obtain ⟨programPc, hf⟩ := @frontInv_run P m ins n
    exact RiscvCpu.satp_next hf h
  answer n hv _ := by
    rw [← run_mmu]
    set s := run P m ins n
    have hv : (DataBus.dcacheRvalid P.bus s.bus (dataIns P m ins n) &&
        (s.bus.walkOwner || (DataBus.walkSel P.bus s.bus (dataIns P m ins n) &&
          DataBus.dcacheGnt P.bus s.bus (dataIns P m ins n)))) = true := hv
    rw [Bool.and_eq_true, Bool.or_eq_true] at hv
    rcases hv.2 with ho | hg
    · exact .inl (accepted_of_walkOwner n ho).2
    · rw [Bool.and_eq_true] at hg
      refine .inr ⟨?_, ?_⟩
      · have hsel := hg.1
        simp only [DataBus.walkSel, Bool.and_eq_true] at hsel
        exact hsel.1.1
      · change (DataBus.dcacheGnt P.bus s.bus (dataIns P m ins n) &&
          DataBus.walkSel P.bus s.bus (dataIns P m ins n)) = true
        rw [hg.1, hg.2]
        rfl

/-! ## Alignment -/

/-- Translation keeps the offset in the page. -/
theorem translatedAddr_mod (pte : Word) (mega : Bool) (va : Word) :
    (translatedAddr pte mega va).toNat % 4096 = va.toNat % 4096 := by
  have hlow : ∀ hi : BitVec 20, (hi ++ va.extractLsb' 0 12).toNat % 4096 = va.toNat % 4096 := by
    intro hi
    rw [BitVec.toNat_append, BitVec.extractLsb'_toNat, Nat.shiftRight_zero,
      ← Nat.shiftLeft_add_eq_or_of_lt (Nat.mod_lt _ (by decide)), Nat.shiftLeft_eq]
    omega
  rw [translatedAddr]
  split
  · exact hlow _
  · exact hlow _

/-- Translation keeps the offset of a data address, -/
theorem physDataAddr_mod (s : Top) :
    (physDataAddr s).toNat % 4096 = s.cpu.exMem.memAddr.toNat % 4096 := by
  have haddr : dataMemAddr s = s.cpu.exMem.memAddr := ite_self _
  rw [← haddr, physDataAddr, Sv32Mmu.dataPhysAddr]
  split
  · rfl
  · exact translatedAddr_mod _ _ _

/-- Translation keeps the offset of the PC. -/
theorem physInstrAddr_mod (s : Top) :
    (physInstrAddr s).toNat % 4096 = s.cpu.pc.toNat % 4096 := by
  rw [physInstrAddr, Sv32Mmu.instrPhysAddr]
  split
  · rfl
  · exact translatedAddr_mod _ _ _

/-- The accesses of the core are aligned wherever they go. -/
theorem alignedAnywhere (n : ℕ) (hreq : DataBus.cpuDataBusReq (dataIns P m ins n) = true) :
    if (dataIns P m ins n).memWriteEn = true then
      AlignedStore (dataIns P m ins n).physAddr (dataIns P m ins n).byteEnable
    else AlignedLoad (dataIns P m ins n).physAddr (dataIns P m ins n).loadType := by
  set s := run P m ins n with hs
  have hmem : RiscvCpu.MemNatural s.cpu := by
    rw [hs, run_cpu]
    exact RiscvCpu.memNatural_run _ _
  have hmod := physDataAddr_mod s
  have hreq : ((RiscvCpu.memRdEn s.cpu || RiscvCpu.memWrEn s.cpu) && !cpuLoadPageFault s &&
      !cpuStorePageFault s && mmuDataReady s) = true := hreq
  simp only [Bool.and_eq_true, Bool.or_eq_true] at hreq
  have hacc := hreq.1.1.1
  change if RiscvCpu.memWrEn s.cpu = true
    then AlignedStore (physDataAddr s) (RiscvCpu.writeByteEnable s.cpu)
    else AlignedLoad (physDataAddr s) (RiscvCpu.loadType s.cpu)
  split
  · rename_i hw
    rcases hmem.alignedStore hw with h | ⟨h, ha⟩ | ⟨h, ha⟩
    · exact .inl h
    · exact .inr (.inl ⟨h, by omega⟩)
    · exact .inr (.inr ⟨h, by omega⟩)
  · rename_i hw
    rcases hmem.alignedLoad (hacc.resolve_right hw) with h | h | ⟨h, ha⟩ | ⟨h, ha⟩
    · exact .inl h
    · exact .inr (.inl h)
    · exact .inr (.inr (.inl ⟨h, by omega⟩))
    · exact .inr (.inr (.inr ⟨h, by omega⟩))

/-- **The accesses of the core are aligned**, at the physical address too. -/
theorem alignedAccess (n : ℕ) : DataBus.AlignedAccess (dataIns P m ins n) :=
  fun hreq _ => alignedAnywhere n hreq

/-- The address of an entry of a page table. -/
theorem tableEntry_mod (ppn : BitVec 20) (index : BitVec 10) :
    ((ppn ++ 0#12) + (0#20 ++ (index ++ 0#2)) : Word).toNat % 4 = 0 := by
  have hshape : ∀ (k : ℕ) (hi : BitVec k), (hi ++ 0#2).toNat = hi.toNat * 4 := by
    intro k hi
    rw [BitVec.toNat_append, BitVec.toNat_ofNat, Nat.zero_mod, Nat.or_zero, Nat.shiftLeft_eq]
  have hbase : (ppn ++ 0#12 : Word).toNat = ppn.toNat * 4096 := by
    rw [BitVec.toNat_append, BitVec.toNat_ofNat, Nat.zero_mod, Nat.or_zero, Nat.shiftLeft_eq]
  have hoff : (0#20 ++ (index ++ 0#2) : Word).toNat = index.toNat * 4 := by
    rw [BitVec.toNat_append, BitVec.toNat_ofNat, Nat.zero_mod, Nat.zero_shiftLeft, Nat.zero_or,
      hshape]
  rw [BitVec.toNat_add, hbase, hoff]
  omega

/-- **The walker asks for whole words.** -/
theorem walkAligned (n : ℕ) : DataBus.WalkAligned (dataIns P m ins n) := by
  intro hreq
  change (Sv32Mmu.walkAddr (run P m ins n).mmu (mmuRequest (run P m ins n))).toNat % 4 = 0
  rw [Sv32Mmu.walkAddr]
  split
  · exact tableEntry_mod _ _
  · rename_i hst
    have hreq : Sv32Mmu.walkReq (run P m ins n).mmu = true := hreq
    rw [Sv32Mmu.walkReq, Bool.and_eq_true, bne_iff_ne] at hreq
    have hlevel : (run P m ins n).mmu.walk.state = .level0 := by
      cases hc : (run P m ins n).mmu.walk.state
      case idle => exact absurd hc hreq.1
      case level1 => exact absurd hc hst
      case level0 => rfl
    rw [run_mmu] at hlevel ⊢
    obtain ⟨pte, hbase⟩ := Sv32Mmu.level0Base_run _ n hlevel
    rw [hbase]
    exact tableEntry_mod _ _

/-! ## Accepted writes -/

/-- **A write leaves MEM when it is accepted**, or with a page fault. -/
theorem accepted_of_moves {n : ℕ} (hw : RiscvCpu.memWrEn (run P m ins n).cpu = true)
    (hm : RiscvCpu.memWait (run P m ins n).cpu (cpuIns P m ins n) = false)
    (hf : RiscvCpu.memStagePageFaultTaken (run P m ins n).cpu (cpuIns P m ins n) = false) :
    DataBus.storeBufPushReq P.bus (run P m ins n).bus (dataIns P m ins n) = true := by
  rw [RiscvCpu.memWait, hf, hw, Bool.or_true, Bool.not_false, Bool.and_true, Bool.true_and,
    Bool.not_eq_false', Bool.and_eq_true] at hm
  have hv : (if RiscvCpu.memWrEn (run P m ins n).cpu = true then
      DataBus.storeBufPushReq P.bus (run P m ins n).bus (dataIns P m ins n) else _) = true := hm.1
  rwa [if_pos hw] at hv

/-- The registers after reset satisfy the invariant. -/
theorem queueInv_reset : DataBus.QueueInv P.bus (reset m).bus :=
  DataBus.queueInv_reset _ _ _ _ _

/-- **Run lemma.** The invariant of the queue holds before every cycle. -/
theorem queueInv_run (n : ℕ) : DataBus.QueueInv P.bus (run P m ins n).bus := by
  rw [run_bus]
  exact DataBus.queueInv_run queueInv_reset alignedAccess n

variable (P m ins) in
/-- The RAM with all writes to it that have been accepted before cycle `n`, in that order. -/
def ramOrder (n : ℕ) : ℕ → BitVec 8 :=
  DataBus.ramOrder P.bus (reset m).bus (dataIns P m ins) n

/-- The data side stands for that RAM. -/
theorem ramMemory_run (n : ℕ) :
    DataBus.ramMemory P.bus (run P m ins n).bus = ramOrder P m ins n := by
  rw [run_bus]
  exact DataBus.ramMemory_run queueInv_reset (DataBus.ramMemory_reset _ _ _ _ _) alignedAccess
    walkAligned n

/-! ## A small SoC -/

/-- Memories that answer at once, a store buffer of one entry, two sets of two ways in the data
cache and of three ways in the instruction cache. -/
def smallSoc : TopParams where
  bus := .ofDepth 0 1 CacheSystem.smallParams (by decide)
  icache := Icache.threeWays
  fetchLatency := 0

/-- The same store buffer and data cache in front of a data memory some cycles away, and lines of
eight words in the instruction cache. -/
def slowSoc (latency : ℕ) : TopParams where
  bus := { smallSoc.bus with memLatency := latency }
  icache := .ofValues 3 1 3 (by decide)
  fetchLatency := 0

/-- A RAM behind block RAMs of zeros. -/
def zeroOn (mem : UnifiedMem) : PowerOn where
  icacheData := fun _ _ => 0#32
  icacheTag := fun _ _ => 0
  icacheDataRd := fun _ => 0#32
  icacheTagRd := fun _ => 0
  dcacheData := fun _ _ => 0#32
  dcacheTag := fun _ _ => 0
  dcacheDataRd := fun _ => 0#32
  dcacheTagRd := fun _ => 0
  mem := mem

/-- Devices that ask for nothing. -/
def quietIn (_ : ℕ) : TopIn := ⟨0#32, false, false, false, false, 0#64⟩

end Top

end Synapse32
