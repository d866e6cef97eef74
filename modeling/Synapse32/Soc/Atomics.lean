import Synapse32.Data.Answers
import Synapse32.Soc.Runs
import Synapse32.Core.Atomics

/-! # Atomics of the SoC

The data accesses of a run with their physical addresses. An AMO makes two, and the MMU translates
its address for each of them: they go to one physical word unless a TLB fill, of a fetch or of the
AMO's own walk, changes the translation in between. -/

namespace Synapse32

namespace RiscvCpu

variable {s : RiscvCpu} {i : CpuIn}

/-- MEM asks for a read or for a write. -/
theorem memWrEn_of_memRdEn (h : memRdEn s = true) : memWrEn s = false := by
  cases ha : isAmoW s
  · have hl : s.exMem.instrId.isLoad = true := by
      rw [isLoad_eq, ha, Bool.or_false]
      simpa [memRdEn, atomicReadEnable, ha] using h
    obtain ⟨hst, hsc⟩ := InstrId.not_store_of_isLoad hl
    have hsc : isScW s = false := hsc
    simp [memWrEn, atomicWriteEnable, exMemStdStoreReq, ha, hst, hsc]
  · cases hp : s.amoWritePhase
    · exact (amoRead_facts ha hp).2.1
    · exact absurd ((amoWrite_facts ha hp).1.symm.trans h) Bool.false_ne_true

/-- An AMO in MEM asks for its read or for its write. -/
theorem memReq_of_isAmoW (h : isAmoW s = true) : (memWrEn s || memRdEn s) = true := by
  cases hp : s.amoWritePhase
  · rw [(amoRead_facts h hp).1, Bool.or_true]
  · rw [(amoWrite_facts h hp).2.1, Bool.true_or]

end RiscvCpu

namespace Top

/-! ## One cycle -/

section Cycle

variable (P : TopParams) (s : Top) (d : TopIn)

/-- The data access that the core completes in a cycle, with its physical address. -/
def completed : List (Access × Word) :=
  (RiscvCpu.completedAccess s.cpu (cpuIn P s d)).map fun a =>
    (a, DataBus.accessAddr s.bus (dataIn P s d))

/-- The MMU has an answer for the access in MEM that is no page fault: its address is not
translated, or the TLB has its page. -/
def translates : Bool := !translatedDataAccess s || Sv32Mmu.tlbDataHit s.mmu (mmuRequest s)

variable {P s d}

/-- An access without a page fault in the core has none in the data side. -/
theorem fault_of_cpuDataReq (h : DataBus.cpuDataReq (dataIn P s d) = true) :
    RiscvCpu.memStagePageFaultTaken s.cpu (cpuIn P s d) = false := by
  simp only [DataBus.cpuDataReq, Bool.and_eq_true, Bool.not_eq_true'] at h
  have hl : (cpuIn P s d).loadPageFaultIn = false := h.1.2
  have hs : (cpuIn P s d).storePageFaultIn = false := h.2
  simp [RiscvCpu.memStagePageFaultTaken, RiscvCpu.memStageLoadPageFault,
    RiscvCpu.memStageStorePageFault, hl, hs]

/-- The physical address of the access in MEM, from the TLB. -/
theorem physDataAddr_eq (s : Top) : physDataAddr s =
    if translatedDataAccess s then
      translatedAddr (s.mmu.tlb.pte Sv32Mmu.tlbEntries s.cpu.exMem.memAddr)
        (s.mmu.tlb.megapage Sv32Mmu.tlbEntries s.cpu.exMem.memAddr) s.cpu.exMem.memAddr
    else s.cpu.exMem.memAddr := by
  have haddr : dataMemAddr s = s.cpu.exMem.memAddr := ite_self _
  rw [← haddr, physDataAddr, Sv32Mmu.dataPhysAddr]
  change (if (!translatedDataAccess s) = true then _ else _) = _
  cases translatedDataAccess s <;> rfl

/-- Whether the access in MEM has its translation, from the TLB. -/
theorem translates_eq (s : Top) : translates s =
    (!translatedDataAccess s || s.mmu.tlb.hit Sv32Mmu.tlbEntries s.cpu.exMem.memAddr) := by
  have haddr : dataMemAddr s = s.cpu.exMem.memAddr := ite_self _
  rw [translates, ← haddr]
  rfl

/-! ## The translation of an AMO -/

/-- While an AMO waits, it is translated or it is not. -/
theorem translatedDataAccess_next (ha : RiscvCpu.isAmoW s.cpu = true)
    (hw : RiscvCpu.memWait s.cpu (cpuIn P s d) = true) :
    translatedDataAccess (next P s d) = translatedDataAccess s := by
  have hx : (next P s d).cpu.exMem = s.cpu.exMem := RiscvCpu.exMem_next_of_memWait hw
  have ha' : RiscvCpu.isAmoW (next P s d).cpu = true := by rwa [RiscvCpu.isAmoW, hx]
  have htr := (RiscvCpu.translation_of_memWait hw).1
  simp only [RiscvCpu.translation, Prod.mk.injEq] at htr
  obtain ⟨hmode, hsatp, -, -⟩ := htr
  have hmode : RiscvCpu.dataPrivilegeMode (next P s d).cpu = RiscvCpu.dataPrivilegeMode s.cpu :=
    hmode
  have hsatp : (next P s d).cpu.csrFile.satp = s.cpu.csrFile.satp := hsatp
  rw [translatedDataAccess, translatedDataAccess, RiscvCpu.memReq_of_isAmoW ha,
    RiscvCpu.memReq_of_isAmoW ha', RiscvCpu.dataMmuEnable, RiscvCpu.dataMmuEnable, hmode, hsatp]

/-- **Only a fill changes the TLB while an access waits.** -/
theorem tlb_next (hw : RiscvCpu.memWait s.cpu (cpuIn P s d) = true)
    (hfill : s.mmu.fill.en = false) : (next P s d).mmu.tlb = s.mmu.tlb := by
  have hflush : RiscvCpu.tlbFlush s.cpu (cpuIn P s d) = false :=
    (RiscvCpu.translation_of_memWait hw).2
  change s.mmu.tlb.next _ (RiscvCpu.tlbFlush s.cpu (cpuIn P s d)) s.mmu.fill.en _ _ _ = _
  rw [hflush, hfill]
  rfl

/-- The access in MEM goes to `pa` as soon as it has its translation. -/
def GoesTo (s : Top) (pa : Word) : Prop := translates s = true → physDataAddr s = pa

/-- **Step.** While an AMO waits it goes where it has gone, unless a fill changes that. -/
theorem GoesTo.next {pa : Word} (h : GoesTo s pa) (ha : RiscvCpu.isAmoW s.cpu = true)
    (hw : RiscvCpu.memWait s.cpu (cpuIn P s d) = true)
    (hfill : s.mmu.fill.en = true → GoesTo (Top.next P s d) pa) : GoesTo (Top.next P s d) pa := by
  cases hen : s.mmu.fill.en
  · have hx : (Top.next P s d).cpu.exMem = s.cpu.exMem := RiscvCpu.exMem_next_of_memWait hw
    have htr := translatedDataAccess_next (P := P) (d := d) ha hw
    have htlb := tlb_next (P := P) (d := d) hw hen
    unfold GoesTo at h ⊢
    rw [physDataAddr_eq, translates_eq] at h ⊢
    rw [hx, htr, htlb]
    exact h
  · exact hfill hen

end Cycle

/-! ## Runs -/

section Runs

variable (P : TopParams) (m : PowerOn) (ins : ℕ → TopIn)

/-- The data accesses completed before cycle `n` with their physical addresses, in order. -/
def translatedLog (n : ℕ) : List (Access × Word) :=
  Clocked.log (next P) (reset m) ins (completed P) n

/-- The instructions of the run that have left EX before cycle `n`. -/
def ledger (n : ℕ) : Ledger := RiscvCpu.ledger RiscvCpu.reset (cpuIns P m ins) n

variable {P m ins}

/-- The registers after reset satisfy the invariant. -/
theorem ownerInv_reset : DataBus.OwnerInv P.bus (reset m).bus where
  toQueueInv := queueInv_reset
  walk h := absurd h Bool.false_ne_true
  held h := EngState.noConfusion h

/-- **Run lemma.** The owner of each access is known before every cycle. -/
theorem ownerInv_run (n : ℕ) : DataBus.OwnerInv P.bus (run P m ins n).bus := by
  induction n with
  | zero => exact ownerInv_reset
  | succ n ih => exact ih.next (alignedAccess n)

/-- One more cycle of accesses. -/
theorem translatedLog_succ (n : ℕ) : translatedLog P m ins (n + 1) =
    translatedLog P m ins n ++ completed P (run P m ins n) (ins n) :=
  Clocked.log_succ ins (completed P) n

end Runs

end Top

end Synapse32
