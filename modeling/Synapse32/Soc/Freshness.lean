import Synapse32.Soc.FetchPort
import Synapse32.Soc.Protection

/-! # Translations behind a fence

Once SFENCE.VMA or a write of `satp` has left EX, every translation that is used derives from
page-table words that the walker has asked for behind it, and these see every older store. -/

namespace Synapse32

/-! ## Where a page fault comes from -/

namespace Sv32Mmu

variable {u : Sv32Mmu} {x : MmuIn}

/-- A fetch faults on a held fault, or on the check of a TLB entry. -/
theorem of_instrPageFault (h : instrPageFault u x = true) :
    instrFaultMatch u x = true ∨
      (tlbInstrHit u x = true ∧
        sv32InstrCheck true true x.instrPrivMode (tlbInstrPte u x) = true) := by
  rw [instrPageFault, Bool.and_eq_true, Bool.or_eq_true] at h
  obtain ⟨ht, hperm | hheld⟩ := h
  · right
    cases hh : tlbInstrHit u x
    · rw [instrPermFault, hh, Bool.and_false] at hperm
      exact absurd hperm Bool.false_ne_true
    · rw [instrPermFault, ht, hh] at hperm
      exact ⟨rfl, hperm⟩
  · exact .inl hheld

/-- A data access faults on a held fault, or on the check of a TLB entry. -/
theorem of_dataPageFault
    (h : dataLoadPageFault u x = true ∨ dataStorePageFault u x = true) :
    dataFaultMatch u x = true ∨
      (tlbDataHit u x = true ∧ (dataCheckIn x).permissionFault (tlbDataPte u x) = true) := by
  simp only [dataLoadPageFault, dataStorePageFault, DataCheckIn.loadPageFault,
    DataCheckIn.storePageFault, Bool.and_eq_true, Bool.or_eq_true, Bool.not_true,
    Bool.false_eq_true, false_or] at h
  rcases h with ⟨-, ⟨⟨⟨-, hh⟩, hp⟩, -⟩ | ⟨⟨hm, -⟩, -⟩⟩ | ⟨-, ⟨⟨⟨-, hh⟩, hp⟩, -⟩ | ⟨hm, -⟩⟩
  · exact .inr ⟨hh, hp⟩
  · exact .inl hm
  · exact .inr ⟨hh, hp⟩
  · exact .inl hm

end Sv32Mmu

/-! ## The SoC -/

namespace Top

variable (P : TopParams) (m : PowerOn) (ins : ℕ → TopIn)

/-- **A page-table word read behind cycle `t`**: its request is granted in a later cycle `g`, once
no write waits in the store buffer; in RAM it is what the writes accepted before `g` have left. -/
def FreshRead (t n : ℕ) (addr word : Word) : Prop :=
  ∃ g k, t < g ∧ k < n ∧ Sv32Mmu.WalkRead (mmuIns P m ins) g k addr word ∧
    Sv32Mmu.NoFlush (mmuIns P m ins) g n ∧ (run P m ins g).bus.buffer.empty = true ∧
    (isRam addr = true → k = g ∧ word = ByteLanes.loadWord (ramOrder P m ins g) addr.toNat)

/-- A leaf of `va` from the root of cycle `n`, of words read behind cycle `t`. -/
def FreshLeaf (t n : ℕ) (va : Word) (mega : Bool) (pte : Word) : Prop :=
  Sv32Mmu.LeafOf (FreshRead P m ins t n) (rootPtBase (run P m ins n).cpu.csrFile.satp) va mega pte

/-- A walk fault of `va` from the root of cycle `n`, of words read behind cycle `t`. -/
def FreshFault (t n : ℕ) (va : Word) : Prop :=
  Sv32Mmu.FaultOf (FreshRead P m ins t n) (rootPtBase (run P m ins n).cpu.csrFile.satp) va

/-- **The translations used in cycle `n` are fresh** behind cycle `t`. -/
structure FreshTranslations (t n : ℕ) : Prop where
  /-- The address and the verdict for a fetch that goes on to the instruction cache. -/
  fetch : RiscvCpu.instrMmuEnable (run P m ins n).cpu = true → (icacheIns P m ins n).req = true →
    ∃ mega pte, FreshLeaf P m ins t n (run P m ins n).cpu.pc mega pte ∧
      (icacheIns P m ins n).addr = translatedAddr pte mega (run P m ins n).cpu.pc ∧
      sv32InstrCheck true true (run P m ins n).cpu.csrFile.privilegeMode pte = false
  /-- A page fault of the fetch. -/
  fetchFault : (cpuIns P m ins n).instrPageFaultIn = true →
    FreshFault P m ins t n (run P m ins n).cpu.pc ∨
      ∃ mega pte, FreshLeaf P m ins t n (run P m ins n).cpu.pc mega pte ∧
        sv32InstrCheck true true (run P m ins n).cpu.csrFile.privilegeMode pte = true
  /-- The address and the verdict for an access of MEM that goes on. -/
  data : RiscvCpu.dataMmuEnable (run P m ins n).cpu = true →
    DataBus.cpuDataBusReq (dataIns P m ins n) = true →
    ∃ mega pte, FreshLeaf P m ins t n (run P m ins n).cpu.exMem.memAddr mega pte ∧
      (dataIns P m ins n).physAddr = translatedAddr pte mega (run P m ins n).cpu.exMem.memAddr ∧
      (Sv32Mmu.dataCheckIn (mmuIns P m ins n)).permissionFault pte = false
  /-- A page fault of MEM. -/
  dataFault : (cpuIns P m ins n).loadPageFaultIn = true ∨
      (cpuIns P m ins n).storePageFaultIn = true →
    FreshFault P m ins t n (run P m ins n).cpu.exMem.memAddr ∨
      ∃ mega pte, FreshLeaf P m ins t n (run P m ins n).cpu.exMem.memAddr mega pte ∧
        (Sv32Mmu.dataCheckIn (mmuIns P m ins n)).permissionFault pte = true

/-- **Behind a fence of the translation** that leaves EX in cycle `t`. -/
structure FencedTranslation (t : ℕ) : Prop where
  /-- All instructions behind the fence are fetched anew. -/
  emptied : (run P m ins (t + 1)).cpu.ifId.instructionValid = false ∧
    (run P m ins (t + 1)).cpu.idEx.instrValid = false
  /-- The answer to a fetch granted up to the fence is dropped. -/
  fetched : ∀ n, t < n →
    RiscvCpu.fetchResponseValid (run P m ins n).cpu (cpuIns P m ins n) = true →
    ∃ g, t < g ∧ g ≤ n ∧ RiscvCpu.answeredGrant (cpuIns P m ins) n = some g
  /-- MEM is done with the instruction ahead of the fence. -/
  finished : RiscvCpu.memWait (run P m ins t).cpu (cpuIns P m ins t) = false
  /-- Every older write that has not faulted has been accepted, and is in `ramOrder`. -/
  accepted : ∀ k ≤ t, RiscvCpu.memWrEn (run P m ins k).cpu = true →
    RiscvCpu.memWait (run P m ins k).cpu (cpuIns P m ins k) = false →
    RiscvCpu.memStagePageFaultTaken (run P m ins k).cpu (cpuIns P m ins k) = false →
    DataBus.storeBufPushReq P.bus (run P m ins k).bus (dataIns P m ins k) = true
  /-- The root is the one behind the fence, until another fence. -/
  root : ∀ n, t < n → Sv32Mmu.NoFlush (mmuIns P m ins) (t + 1) n →
    (run P m ins n).cpu.csrFile.satp = (run P m ins (t + 1)).cpu.csrFile.satp
  translations : ∀ n, t < n → FreshTranslations P m ins t n

variable {P m ins} {t n : ℕ}

/-! ## Page-table words -/

/-- **A page-table word read behind a flush**, up to cycle `n`, is read behind cycle `t`. -/
theorem freshRead {g k : ℕ} {addr word : Word}
    (hflush : (mmuIns P m ins t).flushTlb = true) (htn : t < n)
    (h : Sv32Mmu.WalkRead (mmuIns P m ins) g k addr word) (hk : k < n)
    (hno : Sv32Mmu.NoFlush (mmuIns P m ins) g n) : FreshRead P m ins t n addr word := by
  have htg : t < g := by
    by_contra hle
    have hf := hno t (by omega) htn
    exact Bool.false_ne_true (hf.symm.trans hflush)
  have haddr : (dataIns P m ins g).walkAddr = addr := by
    have ha := h.addr
    rw [← run_mmu] at ha
    exact ha
  have hg : DataBus.walkGnt P.bus (run P m ins g).bus (dataIns P m ins g) = true := h.granted
  obtain ⟨hempty, hram⟩ := DataBus.walk_reads (queueInv_run g) (alignedAccess g) (walkAligned g) hg
  refine ⟨g, k, htg, hk, h, hno, hempty, fun hr => ?_⟩
  rw [haddr] at hram
  obtain ⟨hv, hword⟩ := hram hr
  -- The answer comes in the cycle of the grant.
  obtain rfl : g = k := by
    rcases Nat.eq_or_lt_of_le h.le with heq | hlt
    · exact heq
    · have hun := h.unanswered g le_rfl hlt
      exact absurd (hun.symm.trans hv) Bool.false_ne_true
  refine ⟨rfl, ?_⟩
  rw [← ramMemory_run, ← hword]
  exact h.word.symm

/-! ## One cycle behind the fence -/

/-- **An entry that a lookup hits** is a leaf read behind the fence. -/
theorem freshLeaf_of_hit {va : Word} (hflush : (mmuIns P m ins t).flushTlb = true) (htn : t < n)
    (hh : (run P m ins n).mmu.tlb.hit Sv32Mmu.tlbEntries va = true) :
    FreshLeaf P m ins t n va ((run P m ins n).mmu.tlb.megapage Sv32Mmu.tlbEntries va)
      ((run P m ins n).mmu.tlb.pte Sv32Mmu.tlbEntries va) :=
  (leafRead_of_hit hh).leafOf fun hread hk hno => freshRead hflush htn hread hk hno

/-- **A held fault** is one read behind the fence. -/
theorem freshFault_of_read {va : Word} (hflush : (mmuIns P m ins t).flushTlb = true) (htn : t < n)
    (h : Sv32Mmu.FaultRead (mmuIns P m ins) n (rootPtBase (mmuIns P m ins n).satp) va) :
    FreshFault P m ins t n va :=
  h.faultOf fun hread hk hno => freshRead hflush htn hread hk hno

/-- **The translations of a later cycle.** -/
theorem freshTranslations (hflush : (mmuIns P m ins t).flushTlb = true) (htn : t < n) :
    FreshTranslations P m ins t n where
  fetch hen hreq := by
    obtain ⟨hhit, hcheck, haddr⟩ := hit_of_fetch hen hreq
    exact ⟨_, _, freshLeaf_of_hit hflush htn hhit, haddr, hcheck⟩
  fetchFault h := by
    rcases Sv32Mmu.of_instrPageFault h with hheld | ⟨hhit, hcheck⟩
    · left
      have hheld : (run P m ins n).mmu.instrFault.isMatch (run P m ins n).cpu.pc = true := hheld
      rw [run_mmu] at hheld
      exact freshFault_of_read hflush htn ((Sv32Mmu.holds_run walkPort n).instrFault _ hheld)
    · exact .inr ⟨_, _, freshLeaf_of_hit hflush htn hhit, hcheck⟩
  data hen hreq := by
    obtain ⟨hhit, hcheck, haddr⟩ := hit_of_access (d := ins n) hen hreq
    exact ⟨_, _, freshLeaf_of_hit hflush htn hhit, haddr, hcheck⟩
  dataFault h := by
    have haddr : dataMemAddr (run P m ins n) = (run P m ins n).cpu.exMem.memAddr := ite_self _
    rw [← haddr]
    rcases Sv32Mmu.of_dataPageFault h with hheld | ⟨hhit, hcheck⟩
    · left
      have hheld : (run P m ins n).mmu.dataFault.isMatch (dataMemAddr (run P m ins n)) = true :=
        hheld
      rw [run_mmu] at hheld
      exact freshFault_of_read hflush htn ((Sv32Mmu.holds_run walkPort n).dataFault _ hheld)
    · exact .inr ⟨_, _, freshLeaf_of_hit hflush htn hhit, hcheck⟩

/-! ## The run behind the fence -/

/-- **Translations are fresh behind a fence.** In every run of the SoC, once SFENCE.VMA or a write
of `satp` has left EX in cycle `t`. -/
theorem run_fencedTranslation (P : TopParams) (m : PowerOn) (ins : ℕ → TopIn) (t : ℕ)
    (h : RiscvCpu.tlbFlush (run P m ins t).cpu (cpuIns P m ins t) = true) :
    FencedTranslation P m ins t := by
  obtain ⟨programPc, hf⟩ := @frontInv_run P m ins t
  obtain ⟨hact, hj⟩ := RiscvCpu.jSignal_of_tlbFlush hf h
  refine ⟨RiscvCpu.emptied_of_jSignal hj, ?_, RiscvCpu.memWait_of_active hact,
    fun k _ => accepted_of_moves, ?_, fun n htn => freshTranslations h htn⟩
  · intro n htn hv
    have hr : (cpuIns P m ins n).instrRvalidIn = true := by
      rw [RiscvCpu.fetchResponseValid, Bool.and_eq_true] at hv
      exact hv.1
    obtain ⟨g, hg⟩ := Option.isSome_iff_exists.mp (answeredGrant_isSome hr)
    rw [run_cpu] at hv hj
    exact ⟨g, RiscvCpu.lt_of_answeredGrant hj htn hv hg, RiscvCpu.answeredGrant_le hg, hg⟩
  · intro n htn hno
    induction n, htn using Nat.le_induction with
    | base => rfl
    | succ n htn ih =>
      obtain ⟨programPc', hf'⟩ := @frontInv_run P m ins n
      have hstep : (run P m ins (n + 1)).cpu.csrFile.satp = (run P m ins n).cpu.csrFile.satp :=
        RiscvCpu.satp_next hf' (hno n htn (Nat.lt_succ_self n))
      rw [hstep]
      exact ih fun k hk hkn => hno k hk (by omega)

/-- Supervisor code that loads from the page of the timer at `0x81000000`, puts the page of the UART
in its place, executes SFENCE.VMA, and loads again. The page table is at `0x80001000`. -/
def swapImage : UnifiedMem := fun w =>
  let boot := [0x800800B7#32, 0x00108093#32, 0x18009073#32, 0x80000137#32, 0x04010113#32,
    0x34111073#32, 0x000011B7#32, 0x80018193#32, 0x30019073#32, 0x80002237#32, 0x080002B7#32,
    0x0CF28293#32, 0x81000337#32, 0x30200073#32, nopInstr, nopInstr, 0x00032383#32, 0x80522823#32,
    0x12000073#32, 0x00032403#32, 0x0000006F#32]
  if w < boot.length then boot.getD w nopInstr
  else if w = 0x1800 / 4 then 0x200000CF#32
  else if w = 0x1810 / 4 then 0x008000CF#32
  else nopInstr

/-- The first load goes to the timer in cycle 75, the fence leaves EX in cycle 76, behind the store
to the page table, and the second load goes to the UART in cycle 86. -/
theorem run_fencedTranslation_swap :
    (physDataAddr (run (slowSoc 0) (zeroOn swapImage) quietIn 75) = 0x02000000#32 ∧
      RiscvCpu.tlbFlush (run (slowSoc 0) (zeroOn swapImage) quietIn 76).cpu
        (cpuIns (slowSoc 0) (zeroOn swapImage) quietIn 76) = true ∧
      RiscvCpu.memWrEn (run (slowSoc 0) (zeroOn swapImage) quietIn 76).cpu = true ∧
      physDataAddr (run (slowSoc 0) (zeroOn swapImage) quietIn 86) = 0x20000000#32) ∧
      FencedTranslation (slowSoc 0) (zeroOn swapImage) quietIn 76 := by
  have h : RiscvCpu.tlbFlush (run (slowSoc 0) (zeroOn swapImage) quietIn 76).cpu
      (cpuIns (slowSoc 0) (zeroOn swapImage) quietIn 76) = true := by decide +kernel
  exact ⟨⟨by decide +kernel, h, by decide +kernel, by decide +kernel⟩,
    run_fencedTranslation _ _ _ _ h⟩

end Top

end Synapse32
