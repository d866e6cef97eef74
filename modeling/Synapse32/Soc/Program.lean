import Synapse32.Core.Progress
import Synapse32.Data.Order
import Synapse32.Data.Settled
import Synapse32.Soc.Devices
import Synapse32.Soc.FetchPort

/-! # Programs in the RAM

The core, its caches, the store buffer and the memory together run a program that the RAM holds at
power-on as the instruction set says, whatever the latencies, the sizes of the buffers and caches,
and the activity of the devices. The program may write the devices, which see these writes in
program order. -/

namespace Synapse32

open ByteLanes

/-! ## Loaded values -/

/-- The low part of an extended value is the value. -/
theorem low_signExtend {k : ℕ} (x : BitVec k) (hk : k ≤ 32) :
    (x.signExtend 32).extractLsb' 0 k = x := by
  ext j hj
  simp [BitVec.getElem_extractLsb', BitVec.getLsbD_signExtend, hj]
  omega

/-- The lower bits of an extended value. -/
theorem low_setWidth {k : ℕ} (x : BitVec k) (hk : k ≤ 32) :
    (x.setWidth 32).extractLsb' 0 k = x := by
  ext j hj
  have hj32 : j < 32 := by omega
  simp [BitVec.getElem_extractLsb', hj32, BitVec.getLsbD_eq_getElem hj]

/-- A loaded value is extended already. -/
theorem extendLoad_loadValue (m : ℕ → BitVec 8) (a : ℕ) (kind : BitVec 3) :
    extendLoad kind (loadValue m a kind) = loadValue m a kind := by
  unfold extendLoad loadValue
  split_ifs
  · rw [low_signExtend _ (by decide)]
  · rw [low_setWidth _ (by decide)]
  · rw [low_signExtend _ (by decide)]
  · rw [low_setWidth _ (by decide)]
  all_goals rfl

/-! ## Memories that agree on the RAM -/

/-- Two memories hold the same at every address of RAM. -/
def AgreeOnRam (m m' : ℕ → BitVec 8) : Prop := ∀ a : Word, isRam a = true → m a.toNat = m' a.toNat

/-- The bytes of a word of RAM have addresses of RAM. -/
theorem isRam_of_word {a : Word} (h : isRam a = true) {x : ℕ} (hx : x / 4 = a.toNat / 4) :
    ∃ b : Word, b.toNat = x ∧ isRam b = true := by
  have hlt := a.isLt
  have hb : (BitVec.ofNat 32 x).toNat = x := by
    rw [BitVec.toNat_ofNat]
    omega
  refine ⟨BitVec.ofNat 32 x, hb, ?_⟩
  rw [UnifiedMem.isRam_iff] at h ⊢
  rw [hb]
  omega

namespace AgreeOnRam

variable {m m' : ℕ → BitVec 8} (h : AgreeOnRam m m')
include h

/-- A load reads the same value where the RAMs agree. -/
theorem loadValue {a : Word} (hram : isRam a = true) {kind : BitVec 3}
    (hal : AlignedLoad a kind) :
    loadValue m a.toNat kind = Synapse32.loadValue m' a.toNat kind := by
  refine hal.congr fun x hx => ?_
  obtain ⟨b, rfl, hb⟩ := isRam_of_word hram hx
  exact h b hb

/-- The same store to both. -/
theorem store (a : Word) (be : BitVec 4) (data : Word) :
    AgreeOnRam (store m a.toNat be data) (ByteLanes.store m' a.toNat be data) := by
  intro b hb
  unfold ByteLanes.store
  rw [h b hb]

/-- A store elsewhere to one. -/
theorem store_away {a : Word} (hram : isRam a = false) {be : BitVec 4} (hal : AlignedStore a be)
    (data : Word) : AgreeOnRam m (ByteLanes.store m' a.toNat be data) := by
  intro b hb
  rw [store_of_ne_word data hal.fitsWord, h b hb]
  intro hword
  obtain ⟨c, hc, hcram⟩ := isRam_of_word hb hword.symm
  rw [BitVec.eq_of_toNat_eq hc, hram] at hcram
  exact Bool.false_ne_true hcram

end AgreeOnRam

/-- The address of an access. -/
def Access.addr : Access → Word
  | .read a _ _ => a
  | .write a _ _ => a

/-- Reads leave the memory as it is. -/
theorem foldl_apply_of_reads {t : List Access} (h : ∀ a be v, .write a be v ∉ t)
    (m : ℕ → BitVec 8) : t.foldl Access.apply m = m := by
  induction t generalizing m with
  | nil => rfl
  | cons x t ih =>
    have ht : ∀ a be v, .write a be v ∉ t :=
      fun a be v hmem => h a be v (List.mem_cons_of_mem _ hmem)
    cases x with
    | read a kind v => exact ih ht m
    | write a be v => exact absurd List.mem_cons_self (h a be v)

/-- What the devices see of accesses at the addresses that they name. -/
def deviceEvents (l : List Access) : List DeviceEvent := l.flatMap fun x => x.events x.addr

namespace SeqRun

variable {code : Word → Word}

/-- The addresses that the core fetches from: those of the instructions of the run, and of the two
words behind each. -/
def Fetches (r : SeqRun code) (a : Word) : Prop :=
  ∃ k, ∃ j ≤ 2, a = (r.hart k).pc + BitVec.ofNat 32 (4 * j)

end SeqRun

/-! ## What the core asks for -/

namespace RiscvCpu

variable {code : Word → Word} {r : SeqRun code} {s : RiscvCpu} {l : Ledger} {pend : Option Word}
  {i : CpuIn}

/-- What reads in MEM is a load. -/
theorem isLoad_of_memRdEn (h : memRdEn s = true) : s.exMem.instrId.isLoad = true := by
  rw [memRdEn, Bool.or_eq_true, Bool.and_eq_true] at h
  rw [isLoad_eq, Bool.or_assoc, Bool.or_eq_true]
  exact h.imp_right And.left

/-- A write that MEM asks for is one of the slot's accesses. -/
theorem write_mem_accesses (h : memWrEn s = true) (v : Word) :
    ∃ be data, .write s.exMem.memAddr be data ∈ s.exMem.accesses (scSuccess s) v := by
  rw [memWrEn, atomicWriteEnable, Bool.or_eq_true, Bool.and_eq_true, Bool.or_eq_true] at h
  unfold ExMem.accesses
  by_cases ha : s.exMem.instrId.isAmo = true
  · rw [if_pos ha]
    exact ⟨_, _, List.mem_append_right _ (List.mem_singleton.mpr rfl)⟩
  · rw [if_neg ha]
    by_cases hsc : (s.exMem.instrId == .scW && scSuccess s) = true
    · rw [if_pos hsc]
      exact ⟨_, _, List.mem_append_right _ (List.mem_singleton.mpr rfl)⟩
    · have hst : s.exMem.stdStore = true := by
        rcases h with ⟨h | h, -⟩ | h
        · exact absurd h hsc
        · exact absurd h ha
        · exact h
      rw [if_neg hsc, if_pos hst]
      exact ⟨_, _, List.mem_append_right _ (List.mem_singleton.mpr rfl)⟩

/-- **What MEM asks for is an access of the run's instruction.** -/
theorem Sim.access (h : Sim r s l pend) :
    (memRdEn s = true →
      ∃ kind v, .read s.exMem.memAddr kind v ∈ (r.outcome l.left.length).accesses) ∧
    (memWrEn s = true →
      ∃ be v, .write s.exMem.memAddr be v ∈ (r.outcome l.left.length).accesses) := by
  cases he : l.inMem with
  | none =>
    obtain ⟨hrd, hwr⟩ := memRequests_of_inert (h.mem.inert he)
    rw [hrd, hwr]
    exact ⟨fun h => absurd h Bool.false_ne_true, fun h => absurd h Bool.false_ne_true⟩
  | some e =>
    have hslot : s.exMem = (r.instr l.left.length).slot (r.hart l.left.length) :=
      (h.mem.slot e he).trans (h.slot e he)
    -- Whatever the memory answers, the slot makes the accesses of the instruction.
    obtain ⟨v, hans⟩ : ∃ v, Instr.Answers (r.instr l.left.length) (r.hart l.left.length)
        (scSuccess s) v := ⟨_, fun _ => rfl, scSuccess_eq (r.exec _) hslot h.reserved⟩
    rw [← (Instr.agrees (r.exec _) hans).accesses, ← hslot]
    refine ⟨fun hrd => ⟨s.exMem.readType, v, ?_⟩, fun hwr => write_mem_accesses hwr v⟩
    rw [ExMem.accesses, if_pos (isLoad_of_memRdEn hrd)]
    exact List.mem_append_left _ (List.mem_singleton.mpr rfl)

/-- The core fetches from the words of the run and those just behind. -/
theorem Sim.fetches_pc (h : Sim r s l pend) : r.Fetches s.pc := by
  refine ⟨l.position, s.idEx.instrValid.toNat + s.ifId.instructionValid.toNat, ?_, ?_⟩
  · cases s.idEx.instrValid <;> cases s.ifId.instructionValid <;> decide
  · rw [h.front.pc, h.pc]
    cases s.idEx.instrValid <;> cases s.ifId.instructionValid <;> simp [BitVec.add_assoc]

/-- Nothing changes `satp`. -/
theorem Sim.satp_next (h : Sim r s l pend) (hc : Cycle r s l pend i) :
    (RiscvCpu.next s i).csrFile.satp = s.csrFile.satp := by
  change (s.csrFile.next (csrIn s i)).satp = _
  rw [CsrFile.next_eq_perform, h.action hc]
  rfl

/-- Without a root page table nothing is translated. -/
theorem mmuEnable_of_satp (h : s.csrFile.satp = 0#32) :
    dataMmuEnable s = false ∧ instrMmuEnable s = false := by
  rw [dataMmuEnable, instrMmuEnable, h]
  simp

end RiscvCpu

/-! ## Programs -/

/-- **A program in the RAM at power-on**: it runs from reset, it reads RAM only, and the words it is
fetched from are in RAM and never written. Its other writes may go anywhere. -/
structure RamProgram (m : PowerOn) (r : SeqRun m.mem.fetch) : Prop where
  pc : (r.hart 0).pc = 0x80000000#32
  regs : (r.hart 0).regs = fun _ => 0#32
  mem : (r.hart 0).mem = bytes m.mem.words
  reserved : (r.hart 0).reserved = none
  data : ∀ k a kind v, .read a kind v ∈ (r.outcome k).accesses → isRam a = true
  text : ∀ a, r.Fetches a → isRam a = true
  fixed : ∀ a, r.Fetches a → ∀ k addr be v, .write addr be v ∈ (r.outcome k).accesses →
    DcacheParams.wordAddr addr ≠ DcacheParams.wordAddr a

namespace Top

variable {P : TopParams} {m : PowerOn} {ins : ℕ → TopIn} {s : Top} {d : TopIn}

/-! ## Without translation -/

section Untranslated

variable (h : s.cpu.csrFile.satp = 0#32)
include h

/-- Data accesses go where they say, at once and without a page fault. -/
theorem data_of_satp : physDataAddr s = s.cpu.exMem.memAddr ∧ mmuDataReady s = true ∧
    cpuLoadPageFault s = false ∧ cpuStorePageFault s = false := by
  have hoff : (mmuRequest s).dataTranslateEnable = false := by
    change (RiscvCpu.dataMmuEnable s.cpu && _) = false
    rw [(RiscvCpu.mmuEnable_of_satp h).1, Bool.false_and]
  refine ⟨?_, ?_, ?_, ?_⟩
  · rw [physDataAddr, Sv32Mmu.dataPhysAddr, hoff]
    exact ite_self _
  · rw [mmuDataReady, Sv32Mmu.dataReady, hoff]
    rfl
  · rw [cpuLoadPageFault, Sv32Mmu.dataLoadPageFault, hoff]
    rfl
  · rw [cpuStorePageFault, Sv32Mmu.dataStorePageFault, hoff]
    rfl

/-- So do fetches. -/
theorem fetch_of_satp : physInstrAddr s = s.cpu.pc ∧ mmuInstrReady s = true ∧
    cpuInstrPageFault s = false := by
  have hoff : (mmuRequest s).instrTranslateEnable = false := (RiscvCpu.mmuEnable_of_satp h).2
  refine ⟨?_, ?_, ?_⟩
  · rw [physInstrAddr, Sv32Mmu.instrPhysAddr, hoff]
    rfl
  · rw [mmuInstrReady, Sv32Mmu.instrReady, hoff]
    rfl
  · rw [cpuInstrPageFault, Sv32Mmu.instrPageFault, hoff]
    rfl

end Untranslated

/-! ## The SoC in step with the program -/

variable {r : SeqRun m.mem.fetch}

/-- **The SoC before cycle `n` is in step with the program**: the core is, the data side stands for
the RAM that the accesses so far have left, no fetch and no read is out, and the words that are
fetched are those of power-on. -/
structure InStep (P : TopParams) (m : PowerOn) (ins : ℕ → TopIn) (r : SeqRun m.mem.fetch)
    (n : ℕ) : Prop where
  core : RiscvCpu.Sim r (run P m ins n).cpu
    (RiscvCpu.ledger (RiscvCpu.start (r.hart 0)) (cpuIns P m ins) n) none
  pend : RiscvCpu.pendingFetch (RiscvCpu.start (r.hart 0)) (cpuIns P m ins) n = none
  satp : (run P m ins n).cpu.csrFile.satp = 0#32
  icache : (run P m ins n).icache.state ≠ .bypass
  coreRead : DataBus.coreRead (run P m ins n).bus = none
  memory : AgreeOnRam (DataBus.ramMemory P.bus (run P m ins n).bus)
    (RiscvCpu.dataMemory (r.hart 0).mem (RiscvCpu.start (r.hart 0)) (cpuIns P m ins) n)
  text : ∀ a, r.Fetches a → DataBus.Settled P.bus (run P m ins n).bus (DcacheParams.wordAddr a)
    (m.mem.words (DcacheParams.wordAddr a))

/-- The core of the SoC is the one that starts the program. -/
theorem start_eq_reset (hr : RamProgram m r) : RiscvCpu.start (r.hart 0) = RiscvCpu.reset := by
  rw [RiscvCpu.start, hr.regs]
  rfl

/-- The core runs as it does alone under the same inputs. -/
theorem cpu_eq_runFrom (hr : RamProgram m r) (n : ℕ) : (run P m ins n).cpu =
    RiscvCpu.runFrom (RiscvCpu.start (r.hart 0)) (cpuIns P m ins) n := by
  rw [start_eq_reset hr]
  exact run_cpu n

section Cycle

variable {n : ℕ} (hr : RamProgram m r) (h : InStep P m ins r n)
include hr h

/-- The core reads RAM. -/
theorem InStep.isRam_read (hrd : RiscvCpu.memRdEn (run P m ins n).cpu = true) :
    isRam (dataIns P m ins n).physAddr = true := by
  have haddr : (dataIns P m ins n).physAddr = (run P m ins n).cpu.exMem.memAddr :=
    (data_of_satp h.satp).1
  obtain ⟨kind, v, hmem⟩ := h.core.access.1 hrd
  rw [haddr]
  exact hr.data _ _ _ _ hmem

/-- The word at an address that is fetched from is the one of power-on. -/
theorem InStep.fetchWord {a : Word} (ha : r.Fetches a) :
    (run P m ins n).bus.mem.fetchWord (DcacheParams.wordAddr a) = m.mem.fetch a := by
  have hram := hr.text a ha
  rw [UnifiedMem.fetch_eq, UnifiedMem.fetchWord_of_ram _ hram, UnifiedMem.fetchWord_of_ram _ hram]
  exact (h.text a ha).word

/-- **A fetch is answered by a hit** in the cycle in which it is granted. -/
theorem InStep.hit : (cpuIns P m ins n).instrGntIn = (cpuIns P m ins n).instrRvalidIn ∧
    (cpuIns P m ins n).instrRvalidIn =
      Icache.hit P.icache (run P m ins n).icache (icacheIns P m ins n) := by
  have hram : Icache.cacheable (icacheIns P m ins n) = true := by
    change isRam (physInstrAddr (run P m ins n)) = true
    rw [(fetch_of_satp h.satp).1]
    exact hr.text _ h.core.fetches_pc
  have hby : Icache.bypassReq (run P m ins n).icache (icacheIns P m ins n) = false := by
    rw [Icache.bypassReq, hram, Bool.not_true, Bool.and_false, Bool.false_and]
  have hst : ((run P m ins n).icache.state == .bypass) = false := beq_false_of_ne h.icache
  have hgnt : (cpuIns P m ins n).instrGntIn =
      (Icache.hit P.icache (run P m ins n).icache (icacheIns P m ins n) ||
        (Icache.bypassReq (run P m ins n).icache (icacheIns P m ins n) && _)) := rfl
  have hrv : (cpuIns P m ins n).instrRvalidIn =
      (Icache.hit P.icache (run P m ins n).icache (icacheIns P m ins n) ||
        (_ && (Icache.bypassReq (run P m ins n).icache (icacheIns P m ins n) ||
          (run P m ins n).icache.state == .bypass))) := rfl
  rw [hby, Bool.false_and, Bool.or_false] at hgnt
  rw [hby, hst, Bool.or_false, Bool.and_false, Bool.or_false] at hrv
  exact ⟨hgnt.trans hrv.symm, hrv⟩

/-- What is in step with the program is so for the core alone. -/
theorem InStep.coreInStep : RiscvCpu.InStep r (cpuIns P m ins) n := by
  rw [RiscvCpu.InStep, ← cpu_eq_runFrom hr, h.pend]
  exact h.core

/-- **A read is answered with the memory's value.** -/
theorem InStep.read_value (hrv : (cpuIns P m ins n).dataRvalidIn = true)
    (hrd : RiscvCpu.memRdEn (run P m ins n).cpu = true) :
    RiscvCpu.memReadDataEffective (run P m ins n).cpu (cpuIns P m ins n) =
      loadValue
        (r.hart (RiscvCpu.ledger (RiscvCpu.start (r.hart 0)) (cpuIns P m ins) n).left.length).mem
        (RiscvCpu.readAddr (run P m ins n).cpu).toNat (RiscvCpu.loadType (run P m ins n).cpu) := by
  have hwe : (dataIns P m ins n).memWriteEn = false := RiscvCpu.memWrEn_of_memRdEn hrd
  have haddr : (dataIns P m ins n).physAddr = (run P m ins n).cpu.exMem.memAddr :=
    (data_of_satp h.satp).1
  have hram := h.isRam_read hr hrd
  have hval := DataBus.ram_load_value (ownerInv_run n) (alignedAccess n) (walkAligned n) h.coreRead
    hram hwe hrv
  have hgo := (DataBus.loadGo_of_rvalid (ownerInv_run n) h.coreRead hwe hrv).1
  simp only [DataBus.cpuLoadGo, Bool.and_eq_true] at hgo
  have hal := alignedAnywhere n hgo.1.1.1
  rw [hwe, if_neg Bool.false_ne_true] at hal
  have hrd' := hrd
  rw [cpu_eq_runFrom hr] at hrd'
  have hval : (cpuIns P m ins n).readDataIn =
      loadValue (DataBus.ramMemory P.bus (run P m ins n).bus)
        (dataIns P m ins n).physAddr.toNat (dataIns P m ins n).loadType := hval
  rw [RiscvCpu.memReadDataEffective, if_pos hrd, hval, h.memory.loadValue hram hal, haddr]
  change extendLoad (RiscvCpu.loadType (run P m ins n).cpu)
    (loadValue _ _ (RiscvCpu.loadType (run P m ins n).cpu)) = _
  rw [extendLoad_loadValue, (h.coreInStep hr).dataMemory_eq hrd']
  rfl

/-- **What the SoC does to its core in one cycle** is what the memory interface may do. -/
theorem InStep.cycle (hpast : ∀ k ≤ n, InStep P m ins r k) :
    RiscvCpu.Cycle r (run P m ins n).cpu
      (RiscvCpu.ledger (RiscvCpu.start (r.hart 0)) (cpuIns P m ins) n) none (cpuIns P m ins n) where
  noFault := ⟨(data_of_satp h.satp).2.2.1, (data_of_satp h.satp).2.2.2, (fetch_of_satp h.satp).2.2⟩
  grant _ := rfl
  fetch hrv := by
    obtain ⟨hgnt, hhit⟩ := h.hit hr
    refine ⟨(run P m ins n).cpu.pc, ?_, if_pos (hgnt.trans hrv)⟩
    rw [hhit] at hrv
    -- The hit is on a word that the RAM held in some earlier cycle.
    have hinv := Icache.inv_run (Icache.inv_reset m.icacheData m.icacheTag m.icacheDataRd
      m.icacheTagRd) (@served_run P m ins) n
    have hc : (run P m ins n).icache =
      Icache.run P.icache (reset m).icache (icacheIns P m ins) n := run_icache n
    rw [hc] at hrv
    obtain ⟨k, hkn, -, hword⟩ := hinv.fresh_of_hit hrv
    have haddr : (icacheIns P m ins n).addr = (run P m ins n).cpu.pc := (fetch_of_satp h.satp).1
    rw [haddr] at hword
    have hword : Icache.rdata P.icache (run P m ins n).icache (icacheIns P m ins n) =
        (run P m ins k).bus.mem.fetchWord (DcacheParams.wordAddr (run P m ins n).cpu.pc) := by
      rw [hc]
      exact hword
    exact hword.trans ((hpast k hkn).fetchWord hr h.core.fetches_pc)
  data := h.read_value hr

/-- The cache of the fetch side is never left waiting for an uncached fetch. -/
theorem InStep.icache_next : (run P m ins (n + 1)).icache.state ≠ .bypass := by
  have hram : Icache.cacheable (icacheIns P m ins n) = true := by
    change isRam (physInstrAddr (run P m ins n)) = true
    rw [(fetch_of_satp h.satp).1]
    exact hr.text _ h.core.fetches_pc
  change Icache.nextState P.icache (run P m ins n).icache (icacheIns P m ins n) ≠ .bypass
  rw [Icache.nextState]
  split
  · rw [Icache.bypassReq, hram, Bool.not_true, Bool.and_false, Bool.false_and, Bool.false_and,
      Bool.false_and, if_neg Bool.false_ne_true]
    split <;> decide
  · split <;> decide
  · decide
  · rename_i hst
    exact absurd hst h.icache

/-- No read is left outstanding. -/
theorem InStep.coreRead_next : DataBus.coreRead (run P m ins (n + 1)).bus = none := by
  refine DataBus.coreRead_next_of_ram (ownerInv_run n) h.coreRead fun hgo => ?_
  simp only [DataBus.cpuLoadGo, DataBus.cpuDataBusReq, DataBus.cpuDataReq, Bool.and_eq_true,
    Bool.not_eq_true', Bool.or_eq_true] at hgo
  obtain ⟨⟨⟨⟨⟨⟨hreq, -⟩, -⟩, -⟩, hwe⟩, -⟩, -⟩ := hgo
  refine h.isRam_read hr (hreq.resolve_right fun hwr => ?_)
  exact Bool.false_ne_true (hwe.symm.trans hwr)

omit hr in
/-- What a cycle completes: a write, where the store buffer takes it, else at most a read. -/
theorem InStep.completed_cases :
    (DataBus.storeBufPushReq P.bus (run P m ins n).bus (dataIns P m ins n) = true ∧
      RiscvCpu.completedAccess (run P m ins n).cpu (cpuIns P m ins n) =
        [.write (dataIns P m ins n).physAddr (dataIns P m ins n).byteEnable
          (dataIns P m ins n).writeData]) ∨
    (DataBus.storeBufPushReq P.bus (run P m ins n).bus (dataIns P m ins n) = false ∧
      ∀ x ∈ RiscvCpu.completedAccess (run P m ins n).cpu (cpuIns P m ins n),
        RiscvCpu.memRdEn (run P m ins n).cpu = true ∧
          ∃ kind v, x = .read (dataIns P m ins n).physAddr kind v) := by
  have haddr : (dataIns P m ins n).physAddr = (run P m ins n).cpu.exMem.memAddr :=
    (data_of_satp h.satp).1
  unfold RiscvCpu.completedAccess
  cases hwr : RiscvCpu.memWrEn (run P m ins n).cpu
  · -- Only a write reaches the store buffer.
    have hpush : DataBus.storeBufPushReq P.bus (run P m ins n).bus (dataIns P m ins n) = false := by
      have hwe : (dataIns P m ins n).memWriteEn = false := hwr
      rw [DataBus.storeBufPushReq, hwe, Bool.and_false, Bool.false_and]
    refine .inr ⟨hpush, fun x hx => ?_⟩
    split at hx
    · split at hx
      · rename_i hrd
        rw [haddr]
        exact ⟨hrd, _, _, List.mem_singleton.mp hx⟩
      · exact absurd hx List.not_mem_nil
    · exact absurd hx List.not_mem_nil
  · have hrd : RiscvCpu.memRdEn (run P m ins n).cpu = false := by
      by_contra hrd
      have hno := RiscvCpu.memWrEn_of_memRdEn (Bool.eq_true_of_not_eq_false hrd)
      exact Bool.false_ne_true (hno.symm.trans hwr)
    -- A write is answered in the cycle in which the buffer takes it.
    have hrv : (cpuIns P m ins n).dataRvalidIn =
        DataBus.storeBufPushReq P.bus (run P m ins n).bus (dataIns P m ins n) := by
      change (if RiscvCpu.memWrEn (run P m ins n).cpu then _ else _) = _
      rw [hwr, if_pos rfl]
      rfl
    have hdata : (dataIns P m ins n).writeData =
        RiscvCpu.wrDataOut (run P m ins n).cpu (cpuIns P m ins n) :=
      RiscvCpu.wrDataOut_of_memWrEn hwr _
    rw [hrv, hrd, if_neg Bool.false_ne_true, if_pos rfl, haddr, hdata]
    cases DataBus.storeBufPushReq P.bus (run P m ins n).bus (dataIns P m ins n)
    · exact .inr ⟨rfl, fun x hx => absurd hx List.not_mem_nil⟩
    · exact .inl ⟨rfl, rfl⟩

/-- **The data side goes on standing for the RAM of the accesses.** -/
theorem InStep.memory_next : AgreeOnRam (DataBus.ramMemory P.bus (run P m ins (n + 1)).bus)
    (RiscvCpu.dataMemory (r.hart 0).mem (RiscvCpu.start (r.hart 0)) (cpuIns P m ins) (n + 1)) := by
  have hstep : DataBus.ramMemory P.bus (run P m ins (n + 1)).bus =
      if DataBus.storeBufPushReq P.bus (run P m ins n).bus (dataIns P m ins n) &&
          isRam (dataIns P m ins n).physAddr then
        ByteLanes.store (DataBus.ramMemory P.bus (run P m ins n).bus)
          (dataIns P m ins n).physAddr.toNat (dataIns P m ins n).byteEnable
          (dataIns P m ins n).writeData
      else DataBus.ramMemory P.bus (run P m ins n).bus :=
    DataBus.ramMemory_next (ownerInv_run n).toQueueInv (alignedAccess n) (walkAligned n)
  rw [hstep, RiscvCpu.dataMemory, RiscvCpu.accessLog_succ, List.foldl_append,
    ← RiscvCpu.dataMemory, ← cpu_eq_runFrom hr]
  rcases h.completed_cases with ⟨hpush, hacc⟩ | ⟨hpush, hacc⟩
  · rw [hpush, hacc, Bool.true_and]
    obtain ⟨hreq, hwe, -⟩ := DataBus.not_full_of_push hpush
    have hal := alignedAnywhere n hreq
    rw [if_pos hwe] at hal
    split
    · exact h.memory.store _ _ _
    · rename_i hram
      exact h.memory.store_away (Bool.eq_false_of_not_eq_true hram) hal _
  · have hreads := foldl_apply_of_reads (fun a be v hmem => by
      obtain ⟨-, kind, w, hx⟩ := hacc _ hmem
      cases hx) (RiscvCpu.dataMemory (r.hart 0).mem (RiscvCpu.start (r.hart 0)) (cpuIns P m ins) n)
    rw [hpush, Bool.false_and, if_neg Bool.false_ne_true, hreads]
    exact h.memory

/-- **Step.** The words that are fetched stay those of power-on. -/
theorem InStep.text_next {a : Word} (ha : r.Fetches a) :
    DataBus.Settled P.bus (run P m ins (n + 1)).bus (DcacheParams.wordAddr a)
      (m.mem.words (DcacheParams.wordAddr a)) := by
  refine (h.text a ha).next (ownerInv_run n).toQueueInv ?_
  rintro ⟨hpush, -, hword⟩
  have hwr : RiscvCpu.memWrEn (run P m ins n).cpu = true := (DataBus.not_full_of_push hpush).2.1
  obtain ⟨be, v, hmem⟩ := h.core.access.2 hwr
  have haddr : physDataAddr (run P m ins n) = (run P m ins n).cpu.exMem.memAddr :=
    (data_of_satp h.satp).1
  refine hr.fixed a ha _ _ be v hmem ?_
  rw [← haddr]
  exact hword

/-- **Step.** -/
theorem InStep.next (hpast : ∀ k ≤ n, InStep P m ins r k) : InStep P m ins r (n + 1) := by
  have hc := h.cycle hr hpast
  obtain ⟨hgnt, -⟩ := h.hit hr
  have hpend : RiscvCpu.nextPending (run P m ins n).cpu (cpuIns P m ins n) none = none := by
    rw [RiscvCpu.nextPending, hgnt]
    cases (cpuIns P m ins n).instrRvalidIn <;> rfl
  constructor
  · have hsim := h.core.next hc
    rw [hpend] at hsim
    rw [RiscvCpu.ledger_succ, ← cpu_eq_runFrom hr]
    exact hsim
  · rw [RiscvCpu.pendingFetch, h.pend, hgnt]
    cases (cpuIns P m ins n).instrRvalidIn <;> rfl
  · exact (h.core.satp_next hc).trans h.satp
  · exact h.icache_next hr
  · exact h.coreRead_next hr
  · exact h.memory_next hr
  · exact fun a ha => h.text_next hr ha

end Cycle

/-- After reset the SoC is in step with every program of its RAM. -/
theorem inStep_zero (hr : RamProgram m r) : InStep P m ins r 0 where
  core := by
    have hs := RiscvCpu.sim_start (r := r) hr.pc hr.reserved
    rw [start_eq_reset hr] at hs
    exact hs
  pend := rfl
  satp := rfl
  icache := nofun
  coreRead := DataBus.coreRead_of_not_bypass nofun
  memory a _ := by
    rw [hr.mem]
    exact congrFun (DataBus.ramMemory_reset _ _ _ _ _) _
  text _ _ := DataBus.settled_of_clean (DataBus.queueInv_reset _ _ _ _ _) rfl
    (DataBus.clean_reset _ _ _ _) _

/-- **The SoC stays in step with its program.** -/
theorem inStep_run (hr : RamProgram m r) (n : ℕ) : InStep P m ins r n := by
  induction n using Nat.strong_induction_on with
  | _ n ih =>
    cases n with
    | zero => exact inStep_zero hr
    | succ n => exact (ih n (by omega)).next hr fun k hk => ih k (by omega)

/-- **The memory system is an interface that the core may have**: what the SoC gives its core is
what the memory holds, at times of its own. -/
theorem interface_of_program (hr : RamProgram m r) :
    RiscvCpu.Interface m.mem.fetch (r.hart 0) (cpuIns P m ins) := by
  have hin : ∀ n, InStep P m ins r n := inStep_run hr
  have hcyc := fun n => (hin n).cycle hr fun k _ => hin k
  constructor
  · exact fun n => (hcyc n).noFault
  · exact fun n _ => (inStep_run hr n).pend
  · intro n hrv
    have hfetch := (hcyc n).fetch hrv
    rw [← cpu_eq_runFrom hr, (inStep_run hr n).pend]
    exact hfetch
  · intro n hrv hrd
    rw [← cpu_eq_runFrom hr] at hrd ⊢
    have hdata := (hin n).coreInStep hr
    have hrd' := hrd
    rw [cpu_eq_runFrom hr] at hrd'
    have hread := (hin n).read_value hr hrv hrd
    rw [RiscvCpu.memReadDataEffective, if_pos hrd] at hread
    rw [hread, hdata.dataMemory_eq hrd']

/-- The logs of a cycle are those of so many instructions of the program. -/
theorem logs_of_program (P : TopParams) (ins : ℕ → TopIn) (hr : RamProgram m r) (n : ℕ) :
    ∃ k, RiscvCpu.writeLog RiscvCpu.reset (cpuIns P m ins) n <+: r.writes k ∧
      RiscvCpu.accessLog RiscvCpu.reset (cpuIns P m ins) n <+: r.accesses k := by
  have hi : RiscvCpu.Interface m.mem.fetch (r.hart 0) (cpuIns P m ins) := interface_of_program hr
  rw [← start_eq_reset hr]
  refine ⟨_, ?_, RiscvCpu.accessLog_prefix hr.pc hr.reserved hi n⟩
  -- The log of the next cycle is all that the instructions that have left have written.
  have hw : RiscvCpu.writeLog (RiscvCpu.start (r.hart 0)) (cpuIns P m ins) n <+:
      RiscvCpu.writeLog (RiscvCpu.start (r.hart 0)) (cpuIns P m ins) (n + 1) := by
    rw [RiscvCpu.writeLog_succ]
    exact List.prefix_append _ _
  rw [RiscvCpu.writeLog_eq_writes hr.pc hr.reserved hi] at hw
  exact hw.trans (r.writes_mono (Nat.le_succ _))

/-- What is completed in a cycle goes to the address that the access names. -/
theorem InStep.completed_eq {n : ℕ} (h : InStep P m ins r n) :
    completed P (run P m ins n) (ins n) =
      (RiscvCpu.completedAccess (run P m ins n).cpu (cpuIns P m ins n)).map
        fun x => (x, x.addr) := by
  refine List.map_congr_left fun x hx => ?_
  have haddr : DataBus.accessAddr (run P m ins n).bus (dataIn P (run P m ins n) (ins n)) =
      (dataIns P m ins n).physAddr := by
    rw [DataBus.accessAddr, h.coreRead]
    exact ite_self _
  rw [haddr]
  rcases h.completed_cases with ⟨-, hacc⟩ | ⟨-, hacc⟩
  · change x ∈ RiscvCpu.completedAccess (run P m ins n).cpu (cpuIns P m ins n) at hx
    rw [hacc, List.mem_singleton] at hx
    rw [hx]
    rfl
  · obtain ⟨-, kind, v, rfl⟩ := hacc x hx
    rfl

/-- **The devices see the program's writes to them**, each once and in program order; those that
they have not seen are on their way. -/
theorem deviceLog_of_program (hr : RamProgram m r) (n : ℕ) :
    deviceLog P m ins n ++ DataBus.pending (run P m ins n).bus =
      deviceEvents (RiscvCpu.accessLog RiscvCpu.reset (cpuIns P m ins) n) := by
  have hin : ∀ n, InStep P m ins r n := inStep_run hr
  have hmidway : ∀ k < n, faultsMidway P (run P m ins k) (ins k) = false := by
    intro k _
    obtain ⟨-, -, hl, hs⟩ := data_of_satp (hin k).satp
    have hl' : (cpuIn P (run P m ins k) (ins k)).loadPageFaultIn = false := hl
    have hs' : (cpuIn P (run P m ins k) (ins k)).storePageFaultIn = false := hs
    rw [faultsMidway, RiscvCpu.memStagePageFaultTaken, RiscvCpu.memStageLoadPageFault,
      RiscvCpu.memStageStorePageFault, hl', hs']
    rfl
  have hlog : ∀ n, translatedLog P m ins n =
      (RiscvCpu.accessLog RiscvCpu.reset (cpuIns P m ins) n).map fun x => (x, x.addr) := by
    intro n
    induction n with
    | zero => rfl
    | succ n ih =>
      rw [translatedLog_succ, ih, (hin n).completed_eq, RiscvCpu.accessLog_succ, List.map_append,
        run_cpu]
      rfl
  have hout : DataBus.outstanding (run P m ins n).bus = [] := by
    rw [DataBus.outstanding, (hin n).coreRead]
  rw [deviceLog_eq, grantLog_eq hmidway, hout, List.append_nil, hlog, List.flatMap_map]
  rfl

/-- **The SoC runs programs as the instruction set says.** For a program in the RAM, for all sizes
of the caches and of the store buffer, all latencies and all that the devices do: the register
writes and the data accesses are at all times those of the first instructions of the program, one at
a time and in order; the RAM that memory, caches and store buffer hold together is what these
accesses make of the RAM at power-on; and the devices have seen the writes to them among these
accesses, each once and in order, up to those that are on their way. -/
theorem soc_simulates (hr : RamProgram m r) (n : ℕ) :
    (∃ k, RiscvCpu.writeLog RiscvCpu.reset (cpuIns P m ins) n <+: r.writes k ∧
      RiscvCpu.accessLog RiscvCpu.reset (cpuIns P m ins) n <+: r.accesses k) ∧
    AgreeOnRam (DataBus.ramMemory P.bus (run P m ins n).bus)
      ((RiscvCpu.accessLog RiscvCpu.reset (cpuIns P m ins) n).foldl Access.apply
        (bytes m.mem.words)) ∧
    deviceLog P m ins n ++ DataBus.pending (run P m ins n).bus =
      deviceEvents (RiscvCpu.accessLog RiscvCpu.reset (cpuIns P m ins) n) := by
  have hin : InStep P m ins r n := inStep_run hr n
  have hmem := hin.memory
  rw [RiscvCpu.dataMemory, hr.mem, start_eq_reset hr] at hmem
  exact ⟨logs_of_program P ins hr n, hmem, deviceLog_of_program hr n⟩

/-! ## A program that stores and loads -/

/-- `auipc x1, 1; sw x1, 0(x1); lw x2, 0(x1); lui x3, 0x20000; sw x2, 0(x3)`, and a jump to
itself. -/
def storeLoad : ℕ → Instr
  | 0 => .auipc 1#5 1#20
  | 1 => .store .sw 1#5 1#5 0#12
  | 2 => .load .lw 2#5 1#5 0#12
  | 3 => .lui 3#5 0x20000#20
  | 4 => .store .sw 3#5 2#5 0#12
  | _ => .jal 0#5 0#20

/-- What its instructions do. -/
def storeLoadOutcome : ℕ → Outcome
  | 0 => ⟨0x80000004#32, 1#5, 0x80001000#32, [], none⟩
  | 1 => ⟨0x80000008#32, 0#5, 0#32, [.write 0x80001000#32 0b1111#4 0x80001000#32], none⟩
  | 2 => ⟨0x8000000c#32, 2#5, 0x80001000#32, [.read 0x80001000#32 0b010#3 0x80001000#32], none⟩
  | 3 => ⟨0x80000010#32, 3#5, 0x20000000#32, [], none⟩
  | 4 => ⟨0x80000014#32, 0#5, 0#32, [.write 0x20000000#32 0b1111#4 0x80001000#32], none⟩
  | _ => ⟨0x80000014#32, 0#5, 0x80000018#32, [], none⟩

/-- The RAM with the program at its start. -/
def storeLoadOn : PowerOn := zeroOn fun w => (storeLoad w).encode

/-- The hart before each instruction. -/
def storeLoadHart : ℕ → Hart
  | 0 => ⟨0x80000000#32, fun _ => 0#32, bytes storeLoadOn.mem.words, none⟩
  | k + 1 => (storeLoadHart k).after (storeLoadOutcome k)

/-- The jump stays where it is. -/
theorem storeLoadHart_pc (k : ℕ) : (storeLoadHart (k + 5)).pc = 0x80000014#32 := by
  cases k <;> rfl

/-- The program, one instruction at a time. -/
def storeLoadRun : SeqRun storeLoadOn.mem.fetch where
  hart := storeLoadHart
  instr := storeLoad
  outcome := storeLoadOutcome
  fetch k := by
    match k with
    | 0 | 1 | 2 | 3 | 4 => rfl
    | k + 5 =>
      rw [storeLoadHart_pc]
      rfl
  exec k := by
    match k with
    | 0 | 1 | 2 | 3 | 4 => rfl
    | k + 5 =>
      have hres : (storeLoadHart (k + 5)).reserved = none := by cases k <;> rfl
      change jumpOutcome (storeLoadHart (k + 5)) ((storeLoadHart (k + 5)).pc + _) 0#5
        ((storeLoadHart (k + 5)).pc + 4#32) = _
      rw [jumpOutcome, hres, storeLoadHart_pc]
      rfl
  after _ := rfl
  x0 := rfl

/-- It is fetched from the first eight words. -/
theorem storeLoad_fetches {a : Word} (h : storeLoadRun.Fetches a) :
    isRam a = true ∧ DcacheParams.wordAddr a ≠ DcacheParams.wordAddr 0x80001000#32 ∧
      DcacheParams.wordAddr a ≠ DcacheParams.wordAddr 0x20000000#32 := by
  obtain ⟨k, j, hj, rfl⟩ := h
  match k with
  | 0 | 1 | 2 | 3 | 4 => interval_cases j <;> decide
  | k + 5 =>
    change isRam ((storeLoadHart (k + 5)).pc + _) = true ∧
      DcacheParams.wordAddr ((storeLoadHart (k + 5)).pc + _) ≠ _ ∧
      DcacheParams.wordAddr ((storeLoadHart (k + 5)).pc + _) ≠ _
    rw [storeLoadHart_pc]
    interval_cases j <;> decide

/-- The example program keeps to RAM and never writes its own code. -/
theorem storeLoad_program : RamProgram storeLoadOn storeLoadRun where
  pc := rfl
  regs := rfl
  mem := rfl
  reserved := rfl
  data k a kind v hmem := by
    match k with
    | 0 | 3 => exact absurd hmem List.not_mem_nil
    | 1 | 4 => exact absurd (List.mem_singleton.mp hmem) (fun h => by cases h)
    | 2 =>
      obtain ⟨rfl, -, -⟩ := Access.read.inj (List.mem_singleton.mp hmem)
      decide
    | k + 5 => exact absurd hmem List.not_mem_nil
  text _ h := (storeLoad_fetches h).1
  fixed a h k addr be v hmem := by
    match k with
    | 0 | 3 => exact absurd hmem List.not_mem_nil
    | 2 => exact absurd (List.mem_singleton.mp hmem) (fun h => by cases h)
    | 1 =>
      obtain ⟨rfl, -, -⟩ := Access.write.inj (List.mem_singleton.mp hmem)
      exact (storeLoad_fetches h).2.1.symm
    | 4 =>
      obtain ⟨rfl, -, -⟩ := Access.write.inj (List.mem_singleton.mp hmem)
      exact (storeLoad_fetches h).2.2.symm
    | k + 5 => exact absurd hmem List.not_mem_nil

/-- Sixty cycles of a small SoC that runs it. -/
theorem soc_simulates_storeLoad :
    (∃ k, RiscvCpu.writeLog RiscvCpu.reset (cpuIns smallSoc storeLoadOn quietIn) 60 <+:
        storeLoadRun.writes k ∧
      RiscvCpu.accessLog RiscvCpu.reset (cpuIns smallSoc storeLoadOn quietIn) 60 <+:
        storeLoadRun.accesses k) ∧
    AgreeOnRam (DataBus.ramMemory smallSoc.bus (run smallSoc storeLoadOn quietIn 60).bus)
      ((RiscvCpu.accessLog RiscvCpu.reset (cpuIns smallSoc storeLoadOn quietIn) 60).foldl
        Access.apply (bytes storeLoadOn.mem.words)) ∧
    deviceLog smallSoc storeLoadOn quietIn 60 ++
        DataBus.pending (run smallSoc storeLoadOn quietIn 60).bus =
      deviceEvents (RiscvCpu.accessLog RiscvCpu.reset (cpuIns smallSoc storeLoadOn quietIn) 60) :=
  soc_simulates storeLoad_program 60

end Top

end Synapse32
