import Synapse32.Soc.Runs

/-! # Protection

With translation on, a fetch, a load or a write of U- or S-mode goes on to the caches only where a
leaf that the walker has read since the last flush grants it, and then at the address of that leaf.
Whatever else reaches the caches, the memory and the devices has gone on in an earlier cycle, or is
the walker's. -/

namespace Synapse32

/-! ## What a leaf grants -/

/-- What is asked of a page. -/
inductive AccessKind
  | fetch | load | store
  deriving DecidableEq

/-- **A leaf grants an access** of a mode, under SUM and MXR. -/
structure Grants (kind : AccessKind) (mode : BitVec 2) (sum mxr : Bool) (pte : Word) : Prop where
  valid : pte.getLsbD 0 = true
  below4GB : pte.extractLsb' 30 2 = 0#2
  accessed : pte.getLsbD 6 = true
  rights : match kind with
    | .fetch => pte.getLsbD 3 = true
    | .load => pte.getLsbD 1 = true ∨ (mxr = true ∧ pte.getLsbD 3 = true)
    | .store => pte.getLsbD 2 = true ∧ pte.getLsbD 7 = true
  user : mode = privU → pte.getLsbD 4 = true
  supervisor : mode = privS → pte.getLsbD 4 = false ∨ (kind ≠ .fetch ∧ sum = true)

/-- A usable entry is valid, and its page is below 4 GB. -/
theorem of_pteUsable {pte : Word} (h : pteUsable pte = true) :
    pte.getLsbD 0 = true ∧ pte.extractLsb' 30 2 = 0#2 := by
  simp only [pteUsable, Bool.and_eq_true, beq_iff_eq] at h
  exact h.1

/-- A leaf that passes the check of the fetch side. -/
theorem grants_fetch {mode : BitVec 2} {pte : Word} (sum mxr : Bool) (hu : pteUsable pte = true)
    (h : sv32InstrCheck true true mode pte = false) : Grants .fetch mode sum mxr pte := by
  obtain ⟨hv, hp⟩ := of_pteUsable hu
  simp only [sv32InstrCheck, Bool.true_and, Bool.not_true, Bool.false_or, Bool.or_eq_false_iff,
    Bool.not_eq_false', Bool.and_eq_false_iff, beq_eq_false_iff_ne] at h
  obtain ⟨⟨⟨hx, huser⟩, hsup⟩, ha⟩ := h
  exact ⟨hv, hp, ha, hx, fun hm => huser.resolve_left fun hne => hne hm,
    fun hm => .inl (hsup.resolve_left fun hne => hne hm)⟩

/-- A leaf that passes the check of the data side. -/
theorem grants_data {x : DataCheckIn} {pte : Word} {kind : AccessKind} (hu : pteUsable pte = true)
    (hk : (kind = .load ∧ x.dataRdEn = true ∧ x.dataWrReq = false) ∨
      (kind = .store ∧ x.dataWrReq = true))
    (h : x.permissionFault pte = false) : Grants kind x.privilegeMode x.sum x.mxr pte := by
  obtain ⟨hv, hp⟩ := of_pteUsable hu
  simp only [DataCheckIn.permissionFault, Bool.or_eq_false_iff, Bool.not_eq_false',
    Bool.and_eq_false_iff, beq_eq_false_iff_ne] at h
  obtain ⟨⟨⟨⟨⟨⟨-, huser⟩, hsup⟩, hr⟩, hw⟩, ha⟩, hd⟩ := h
  have huser : x.privilegeMode = privU → pte.getLsbD 4 = true :=
    fun hm => huser.resolve_left fun hne => hne hm
  have hsup : x.privilegeMode = privS → pte.getLsbD 4 = false ∨ x.sum = true := by
    intro hm
    rcases hsup with (hne | hclear) | hsum
    · exact absurd hm hne
    · exact .inl hclear
    · exact .inr hsum
  rcases hk with ⟨rfl, hrd, hwr⟩ | ⟨rfl, hwr⟩
  · refine ⟨hv, hp, ha, ?_, huser, fun hm => (hsup hm).imp_right fun hs => ⟨by decide, hs⟩⟩
    rw [hrd, hwr] at hr
    rcases hr with hr | hr
    · simp at hr
    · simp only [Bool.or_eq_true, Bool.and_eq_true] at hr
      exact hr
  · rw [hwr] at hw hd
    exact ⟨hv, hp, ha, ⟨hw.resolve_left (by decide), hd.resolve_left (by decide)⟩, huser,
      fun hm => (hsup hm).imp_right fun hs => ⟨by decide, hs⟩⟩

/-! ## What the MMU lets through -/

namespace Sv32Mmu

variable {u : Sv32Mmu} {x : MmuIn}

/-- A translated fetch that is let through hits in the TLB, and its entry passes the check. -/
theorem hit_of_instrReady (ht : x.instrTranslateEnable = true) (hr : instrReady u x = true)
    (hf : instrPageFault u x = false) :
    tlbInstrHit u x = true ∧
      sv32InstrCheck true true x.instrPrivMode (tlbInstrPte u x) = false := by
  rw [instrPageFault, ht, Bool.true_and, Bool.or_eq_false_iff] at hf
  obtain ⟨hperm, hheld⟩ := hf
  have hhit : tlbInstrHit u x = true := by
    simpa [instrReady, ht, hheld] using hr
  rw [instrPermFault, ht, hhit] at hperm
  exact ⟨hhit, hperm⟩

/-- A translated access that is let through hits in the TLB, and its entry passes the check. -/
theorem hit_of_dataReady (ht : x.dataTranslateEnable = true)
    (hx : x.dataRdEn = true ∨ x.dataWrReq = true) (hr : dataReady u x = true)
    (hl : dataLoadPageFault u x = false) (hs : dataStorePageFault u x = false) :
    tlbDataHit u x = true ∧ (dataCheckIn x).permissionFault (tlbDataPte u x) = false := by
  rw [dataLoadPageFault, ht, Bool.true_and, Bool.or_eq_false_iff] at hl
  rw [dataStorePageFault, ht, Bool.true_and, Bool.or_eq_false_iff] at hs
  obtain ⟨hl, hlm⟩ := hl
  obtain ⟨hs, hsm⟩ := hs
  -- An access is a load or asks to write, so that a held fault would show.
  have hheld : dataFaultMatch u x = false := by
    by_contra hm
    have hm : dataFaultMatch u x = true := Bool.eq_true_of_not_eq_false hm
    rw [hm, Bool.true_and] at hlm hsm
    rw [hsm, Bool.not_false, Bool.and_true] at hlm
    rcases hx with hrd | hwr
    · exact Bool.false_ne_true (hlm.symm.trans hrd)
    · exact Bool.false_ne_true (hsm.symm.trans hwr)
  have hhit : tlbDataHit u x = true := by
    simpa [dataReady, ht, hheld] using hr
  refine ⟨hhit, ?_⟩
  by_contra hp
  have hp : (dataCheckIn x).permissionFault (tlbDataPte u x) = true :=
    Bool.eq_true_of_not_eq_false hp
  simp only [DataCheckIn.loadPageFault, hhit, hp, Bool.or_true, Bool.true_and] at hl
  simp only [DataCheckIn.storePageFault, hhit, hp, Bool.or_true, Bool.true_and] at hs
  have hwr : x.dataWrReq = false := hs
  have hrd : (x.dataRdEn && !x.dataWrReq) = false := hl
  rw [hwr, Bool.not_false, Bool.and_true] at hrd
  rcases hx with h | h
  · exact Bool.false_ne_true (hrd.symm.trans h)
  · exact Bool.false_ne_true (hwr.symm.trans h)

end Sv32Mmu

/-! ## The SoC -/

namespace Top

variable (P : TopParams) (m : PowerOn) (ins : ℕ → TopIn)

/-- **The access is granted** in cycle `n`: a leaf of `va`, read since the last flush from the root
in `satp` down, grants it, and `pa` is the address it gives. -/
def Granted (n : ℕ) (kind : AccessKind) (mode : BitVec 2) (va pa : Word) : Prop :=
  ∃ mega pte, Sv32Mmu.LeafRead (mmuIns P m ins) n
      (rootPtBase (run P m ins n).cpu.csrFile.satp) va mega pte ∧
    Grants kind mode ((run P m ins n).cpu.csrFile.mstatus.getLsbD 18)
      ((run P m ins n).cpu.csrFile.mstatus.getLsbD 19) pte ∧
    pa = translatedAddr pte mega va

/-- What the access in MEM asks of its page; the read half of an AMO asks to write. -/
def memKind (s : Top) : AccessKind := if RiscvCpu.dataWriteIntent s.cpu then .store else .load

/-- The request at the data cache in cycle `n`. -/
def cacheReq (n : ℕ) : DcacheReq := DataBus.dcacheReq P.bus (run P m ins n).bus (dataIns P m ins n)

/-- **Protection in cycle `n`.** -/
structure Protected (n : ℕ) : Prop where
  /-- A fetch that is presented to the instruction cache is granted. -/
  fetch : (run P m ins n).cpu.csrFile.satp.getLsbD 31 = true →
    ((run P m ins n).cpu.csrFile.privilegeMode = privU ∨
      (run P m ins n).cpu.csrFile.privilegeMode = privS) →
    (icacheIns P m ins n).req = true →
    Granted P m ins n .fetch (run P m ins n).cpu.csrFile.privilegeMode (run P m ins n).cpu.pc
      (icacheIns P m ins n).addr
  /-- So is a load, or the read of an AMO, that is presented to the data cache. -/
  load : (run P m ins n).cpu.csrFile.satp.getLsbD 31 = true →
    (RiscvCpu.dataPrivilegeMode (run P m ins n).cpu = privU ∨
      RiscvCpu.dataPrivilegeMode (run P m ins n).cpu = privS) →
    DataBus.cpuLoadGo P.bus (run P m ins n).bus (dataIns P m ins n) = true →
    Granted P m ins n (memKind (run P m ins n)) (RiscvCpu.dataPrivilegeMode (run P m ins n).cpu)
      (run P m ins n).cpu.exMem.memAddr (cacheReq P m ins n).addr
  /-- So is a write that is accepted into the store path. -/
  store : (run P m ins n).cpu.csrFile.satp.getLsbD 31 = true →
    (RiscvCpu.dataPrivilegeMode (run P m ins n).cpu = privU ∨
      RiscvCpu.dataPrivilegeMode (run P m ins n).cpu = privS) →
    DataBus.storeBufPushReq P.bus (run P m ins n).bus (dataIns P m ins n) = true →
    Granted P m ins n .store (RiscvCpu.dataPrivilegeMode (run P m ins n).cpu)
      (run P m ins n).cpu.exMem.memAddr (DataBus.pushEntry (dataIns P m ins n)).addr
  /-- The instruction cache reads what is presented, or a line that has been. -/
  fetchMemory : icacheMemReq (run P m ins n) = true →
    (icacheIns P m ins n).req = true ∨
      ∃ k < n, (icacheIns P m ins k).req = true ∧
        (run P m ins n).icache.fillLine = P.icache.lines.lineOf (icacheIns P m ins k).addr
  /-- Only the walker, a load that is presented and an accepted write ask the data cache. -/
  dataCache : (cacheReq P m ins n).req = true →
    DataBus.walkSel P.bus (run P m ins n).bus (dataIns P m ins n) = true ∨
    DataBus.cpuLoadGo P.bus (run P m ins n).bus (dataIns P m ins n) = true ∨
    ∃ k ≤ n, DataBus.storeBufPushReq P.bus (run P m ins k).bus (dataIns P m ins k) = true ∧
      DataBus.drainEntry (run P m ins n).bus (dataIns P m ins n) =
        DataBus.pushEntry (dataIns P m ins k)
  /-- The lines that it fetches have been asked for. -/
  dataLines : ∀ L ∈ (run P m ins n).bus.cache.lines.waiting,
    ∃ k < n, (cacheReq P m ins k).req = true ∧ L = P.bus.cache.lineOf (cacheReq P m ins k).addr
  /-- So has what goes to the memory or a device besides its line transfers. -/
  dataMemory : DataBus.dataStoreReq P.bus (run P m ins n).bus (dataIns P m ins n) = true →
    Dcache.memLine (run P m ins n).bus.cache = false →
    ∃ k ≤ n, (cacheReq P m ins k).req = true ∧
      DataBus.dataStore P.bus (run P m ins n).bus (dataIns P m ins n) =
        DataBus.bypassStore (cacheReq P m ins k)

variable {P m ins}

/-- A mode that is not M-mode. -/
theorem ne_privM {mode : BitVec 2} (h : mode = privU ∨ mode = privS) : (mode != privM) = true := by
  rcases h with rfl | rfl <;> decide

/-- A translated fetch that goes on hits in the TLB: its entry passes the check and gives the
address. -/
theorem hit_of_fetch {s : Top} (hen : RiscvCpu.instrMmuEnable s.cpu = true)
    (hreq : (fetchRequest s).req = true) :
    s.mmu.tlb.hit Sv32Mmu.tlbEntries s.cpu.pc = true ∧
      sv32InstrCheck true true s.cpu.csrFile.privilegeMode
        (s.mmu.tlb.pte Sv32Mmu.tlbEntries s.cpu.pc) = false ∧
      physInstrAddr s = translatedAddr (s.mmu.tlb.pte Sv32Mmu.tlbEntries s.cpu.pc)
        (s.mmu.tlb.megapage Sv32Mmu.tlbEntries s.cpu.pc) s.cpu.pc := by
  have hreq : (mmuInstrReady s && !cpuInstrPageFault s) = true := hreq
  rw [Bool.and_eq_true, Bool.not_eq_true'] at hreq
  obtain ⟨hhit, hcheck⟩ := Sv32Mmu.hit_of_instrReady hen hreq.1 hreq.2
  refine ⟨hhit, hcheck, ?_⟩
  have hen : (mmuRequest s).instrTranslateEnable = true := hen
  rw [physInstrAddr, Sv32Mmu.instrPhysAddr, hen, Bool.not_true, if_neg Bool.false_ne_true]
  rfl

/-- What MEM asks of the MMU, where its access goes on: to read, or to write. -/
theorem asks_of_access {s : Top} {d : TopIn}
    (hreq : DataBus.cpuDataBusReq (dataRequest s d) = true) :
    (mmuRequest s).dataRdEn = true ∨ (mmuRequest s).dataWrReq = true := by
  simp only [DataBus.cpuDataBusReq, DataBus.cpuDataReq, Bool.and_eq_true, Bool.or_eq_true] at hreq
  refine hreq.1.1.1.imp id fun hw => ?_
  have hw : RiscvCpu.memWrEn s.cpu = true := hw
  change (RiscvCpu.memWrEn s.cpu || _) = true
  rw [hw]
  rfl

/-- A translated access of MEM that goes on hits in the TLB: its entry passes the check and gives
the address. -/
theorem hit_of_access {s : Top} {d : TopIn} (hen : RiscvCpu.dataMmuEnable s.cpu = true)
    (hreq : DataBus.cpuDataBusReq (dataRequest s d) = true) :
    s.mmu.tlb.hit Sv32Mmu.tlbEntries s.cpu.exMem.memAddr = true ∧
      (Sv32Mmu.dataCheckIn (mmuRequest s)).permissionFault
        (s.mmu.tlb.pte Sv32Mmu.tlbEntries s.cpu.exMem.memAddr) = false ∧
      physDataAddr s = translatedAddr (s.mmu.tlb.pte Sv32Mmu.tlbEntries s.cpu.exMem.memAddr)
        (s.mmu.tlb.megapage Sv32Mmu.tlbEntries s.cpu.exMem.memAddr) s.cpu.exMem.memAddr := by
  have hx := asks_of_access hreq
  have haddr : dataMemAddr s = s.cpu.exMem.memAddr := ite_self _
  have hreq : ((RiscvCpu.memRdEn s.cpu || RiscvCpu.memWrEn s.cpu) && !cpuLoadPageFault s &&
      !cpuStorePageFault s && mmuDataReady s) = true := hreq
  simp only [Bool.and_eq_true, Bool.not_eq_true'] at hreq
  obtain ⟨⟨⟨hacc, hl⟩, hst⟩, hr⟩ := hreq
  have hen : (mmuRequest s).dataTranslateEnable = true := by
    change (RiscvCpu.dataMmuEnable s.cpu &&
      (RiscvCpu.memWrEn s.cpu || RiscvCpu.memRdEn s.cpu)) = true
    rw [hen, Bool.or_comm, hacc]
    rfl
  rw [← haddr]
  obtain ⟨hhit, hcheck⟩ := Sv32Mmu.hit_of_dataReady hen hx hr hl hst
  refine ⟨hhit, hcheck, ?_⟩
  rw [physDataAddr, Sv32Mmu.dataPhysAddr, hen, Bool.not_true, if_neg Bool.false_ne_true]
  rfl

/-- An entry that a lookup hits has been read since the last flush. -/
theorem leafRead_of_hit {n : ℕ} {va : Word}
    (hh : (run P m ins n).mmu.tlb.hit Sv32Mmu.tlbEntries va = true) :
    Sv32Mmu.LeafRead (mmuIns P m ins) n (rootPtBase (run P m ins n).cpu.csrFile.satp) va
      ((run P m ins n).mmu.tlb.megapage Sv32Mmu.tlbEntries va)
      ((run P m ins n).mmu.tlb.pte Sv32Mmu.tlbEntries va) := by
  rw [run_mmu] at hh ⊢
  exact Sv32Mmu.leafRead_of_hit walkPort hh

/-- **Step, the fetch side.** -/
theorem granted_fetch {n : ℕ} (hsatp : (run P m ins n).cpu.csrFile.satp.getLsbD 31 = true)
    (hmode : (run P m ins n).cpu.csrFile.privilegeMode = privU ∨
      (run P m ins n).cpu.csrFile.privilegeMode = privS)
    (hreq : (icacheIns P m ins n).req = true) :
    Granted P m ins n .fetch (run P m ins n).cpu.csrFile.privilegeMode (run P m ins n).cpu.pc
      (icacheIns P m ins n).addr := by
  have hen : RiscvCpu.instrMmuEnable (run P m ins n).cpu = true := by
    rw [RiscvCpu.instrMmuEnable, ne_privM hmode, hsatp]
    rfl
  obtain ⟨hhit, hcheck, haddr⟩ := hit_of_fetch hen hreq
  have hleaf := leafRead_of_hit hhit
  exact ⟨_, _, hleaf, grants_fetch _ _ hleaf.usable hcheck, haddr⟩

/-- **Step, the data side.** -/
theorem granted_data {n : ℕ} {kind : AccessKind}
    (hsatp : (run P m ins n).cpu.csrFile.satp.getLsbD 31 = true)
    (hmode : RiscvCpu.dataPrivilegeMode (run P m ins n).cpu = privU ∨
      RiscvCpu.dataPrivilegeMode (run P m ins n).cpu = privS)
    (hreq : DataBus.cpuDataBusReq (dataIns P m ins n) = true)
    (hk : kind = memKind (run P m ins n)) :
    Granted P m ins n kind (RiscvCpu.dataPrivilegeMode (run P m ins n).cpu)
      (run P m ins n).cpu.exMem.memAddr (physDataAddr (run P m ins n)) := by
  have hen : RiscvCpu.dataMmuEnable (run P m ins n).cpu = true := by
    rw [RiscvCpu.dataMmuEnable, ne_privM hmode, hsatp]
    rfl
  obtain ⟨hhit, hcheck, haddr⟩ := hit_of_access (d := ins n) hen hreq
  have hleaf := leafRead_of_hit hhit
  have hx := asks_of_access (d := ins n) hreq
  set s := run P m ins n
  have hkind : (kind = .load ∧ (mmuRequest s).dataRdEn = true ∧
      (mmuRequest s).dataWrReq = false) ∨ (kind = .store ∧ (mmuRequest s).dataWrReq = true) := by
    rw [hk, memKind]
    cases hw : RiscvCpu.dataWriteIntent s.cpu
    · exact .inl ⟨rfl, hx.resolve_right fun h => Bool.false_ne_true (hw.symm.trans h), hw⟩
    · exact .inr ⟨rfl, hw⟩
  exact ⟨_, _, hleaf, grants_data hleaf.usable hkind hcheck, haddr⟩

/-- The line that the instruction cache fills has been presented. -/
theorem fillLine_origin {n : ℕ} (h : (run P m ins n).icache.state = .fill) :
    ∃ k < n, (icacheIns P m ins k).req = true ∧
      (run P m ins n).icache.fillLine = P.icache.lines.lineOf (icacheIns P m ins k).addr := by
  induction n with
  | zero => cases h
  | succ n ih =>
    set c := (run P m ins n).icache
    set x := icacheIns P m ins n
    have hline : (run P m ins (n + 1)).icache.fillLine =
        if Icache.miss P.icache c x then P.icache.lines.lineOf x.addr else c.fillLine := rfl
    rw [hline]
    cases hm : Icache.miss P.icache c x
    · have hstate : Icache.nextState P.icache c x = .fill := h
      have hfill : c.state = .fill := by
        rw [Icache.nextState, hm] at hstate
        cases hc : c.state <;> rw [hc] at hstate <;> dsimp only at hstate
        case refill => cases hstate
        case idle =>
          rw [if_neg Bool.false_ne_true] at hstate
          split at hstate <;> cases hstate
        case bypass => split at hstate <;> cases hstate
      obtain ⟨k, hk, hrest⟩ := ih hfill
      exact ⟨k, by omega, hrest⟩
    · refine ⟨n, by omega, ?_, if_pos rfl⟩
      simp only [Icache.miss, Icache.lookup, Bool.and_eq_true] at hm
      exact hm.1.1.1

/-- **Protection.** In every reachable state of the SoC, whatever its parameters, the contents of
its memories and the inputs of its devices. -/
theorem run_protected (P : TopParams) (m : PowerOn) (ins : ℕ → TopIn) (n : ℕ) :
    Protected P m ins n where
  fetch := granted_fetch
  load hsatp hmode hgo := by
    have hgo' := hgo
    simp only [DataBus.cpuLoadGo, Bool.and_eq_true] at hgo'
    -- Neither the walker nor the buffer has the port while a load goes.
    have haddr : (cacheReq P m ins n).addr = physDataAddr (run P m ins n) := by
      have hw : DataBus.walkSel P.bus (run P m ins n).bus (dataIns P m ins n) = false := by
        rw [DataBus.walkSel, hgo, Bool.not_true, Bool.and_false, Bool.false_and]
      have hd : DataBus.drainSel P.bus (run P m ins n).bus (dataIns P m ins n) = false := by
        rw [DataBus.drainSel, hgo, Bool.not_true, Bool.and_false]
      change (if _ then _ else if _ then _ else _) = _
      rw [hw, hd]
      rfl
    rw [haddr]
    exact granted_data hsatp hmode hgo'.1.1.1 rfl
  store hsatp hmode hpush := by
    obtain ⟨hreq, hwe, -⟩ := DataBus.not_full_of_push hpush
    refine granted_data hsatp hmode hreq ?_
    have hwr : RiscvCpu.memWrEn (run P m ins n).cpu = true := hwe
    rw [memKind, RiscvCpu.dataWriteIntent, hwr]
    rfl
  fetchMemory h := by
    have h : (((run P m ins n).icache.state == .fill) ||
        Icache.bypassReq (run P m ins n).icache (fetchRequest (run P m ins n))) = true := h
    rw [Bool.or_eq_true, beq_iff_eq] at h
    rcases h with hs | hb
    · exact .inr (fillLine_origin hs)
    · simp only [Icache.bypassReq, Bool.and_eq_true] at hb
      exact .inl hb.1.1
  dataCache h := by
    rcases DataBus.asks_cases h with hw | hgo | ⟨hpush, hd⟩ | he
    · exact .inl hw
    · exact .inr (.inl hgo)
    · exact .inr (.inr ⟨n, le_rfl, hpush, hd⟩)
    · rw [run_bus] at he
      obtain ⟨k, hk, hpush, hd⟩ := DataBus.entry_origin busInv_reset rfl he
      rw [← run_bus] at hpush hd
      exact .inr (.inr ⟨k, by omega, hpush, hd⟩)
  dataLines L hL := by
    rw [run_bus] at hL
    obtain ⟨k, hk, hrest⟩ := DataBus.waiting_origin rfl hL
    rw [← run_bus] at hrest
    exact ⟨k, hk, hrest⟩
  dataMemory h hm := by
    rw [run_bus] at h hm
    obtain ⟨k, hk, hrest⟩ := DataBus.store_origin busInv_reset rfl h hm
    rw [← run_bus, ← run_bus] at hrest
    exact ⟨k, hk, hrest⟩

end Top

end Synapse32
