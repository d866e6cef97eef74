import Synapse32.Soc.FetchPort

/-! # Fetches behind FENCE.I

FENCE.I leaves EX once every older write has reached the RAM, in the cycle in which it flushes the
instruction cache and drops what has been fetched. -/

namespace Synapse32

namespace RiscvCpu

variable {s : RiscvCpu} {i : CpuIn}

/-- **FENCE.I leaves EX** behind an empty store buffer and a clean data cache. -/
theorem drained_of_instrCacheFlush (h : instrCacheFlush s i = true) :
    i.storeBufferEmptyIn = true ∧ i.dataCacheCleanIn = true := by
  simp only [instrCacheFlush, Bool.and_eq_true, beq_iff_eq] at h
  obtain ⟨⟨ha, hv⟩, hid⟩ := h
  rw [exStageActive, Bool.and_eq_true, Bool.not_eq_true', Bool.not_eq_true'] at ha
  have hstall := ha.2
  rw [fenceDrainStall, hv, hid] at hstall
  simpa using hstall

end RiscvCpu

namespace Top

variable (P : TopParams) (m : PowerOn) (ins : ℕ → TopIn)

/-- **Behind a FENCE.I** that leaves EX in cycle `t`. -/
structure FencedFetch (t : ℕ) : Prop where
  /-- All instructions behind the fence are fetched anew. -/
  emptied : (run P m ins (t + 1)).cpu.ifId.instructionValid = false ∧
    (run P m ins (t + 1)).cpu.idEx.instrValid = false
  /-- MEM is done with the instruction ahead of the fence, -/
  finished : RiscvCpu.memWait (run P m ins t).cpu (cpuIns P m ins t) = false
  /-- and every older write that has not faulted has been accepted, and is in `ramOrder`. -/
  accepted : ∀ k < t, RiscvCpu.memWrEn (run P m ins k).cpu = true →
    RiscvCpu.memWait (run P m ins k).cpu (cpuIns P m ins k) = false →
    RiscvCpu.memStagePageFaultTaken (run P m ins k).cpu (cpuIns P m ins k) = false →
    DataBus.storeBufPushReq P.bus (run P m ins k).bus (dataIns P m ins k) = true
  /-- No write is accepted with the fence. -/
  quiet : DataBus.storeBufPushReq P.bus (run P m ins t).bus (dataIns P m ins t) = false
  /-- All accepted writes have reached the RAM. -/
  written : ByteLanes.bytes (run P m ins t).bus.mem.words = ramOrder P m ins t
  /-- A word of the RAM that is fetched behind the fence is at the address of the PC, and is what
  the older writes have left there, as long as no younger write to it has been accepted. -/
  fetched : ∀ n, t < n →
    RiscvCpu.fetchResponseValid (run P m ins n).cpu (cpuIns P m ins n) = true →
    ∀ a, Icache.answered P.icache (reset m).icache (icacheIns P m ins) n = some a →
    isRam a = true →
    (∀ k, t ≤ k → k < n → ¬ DataBus.writesWord P.bus (run P m ins k).bus (dataIns P m ins k)
      (DcacheParams.wordAddr a)) →
    physInstrAddr (run P m ins n) = a ∧
      (cpuIns P m ins n).instrIn =
        ByteLanes.loadWord (ramOrder P m ins t) (4 * DcacheParams.wordAddr a)

variable {P m ins} {t n : ℕ}

/-- Behind the fence the data side holds nothing back. -/
theorem settled_of_fenceI
    (h : RiscvCpu.instrCacheFlush (run P m ins t).cpu (cpuIns P m ins t) = true) :
    DataBus.storeBufPushReq P.bus (run P m ins t).bus (dataIns P m ins t) = false ∧
      (run P m ins t).bus.buffer.empty = true ∧
      Dcache.clean P.bus.cache (run P m ins t).bus.cache = true := by
  obtain ⟨-, hc⟩ := RiscvCpu.drained_of_instrCacheFlush h
  have hc : (Dcache.clean P.bus.cache (run P m ins t).bus.cache &&
      !(!(run P m ins t).bus.buffer.empty ||
        DataBus.storeBufPushReq P.bus (run P m ins t).bus (dataIns P m ins t))) = true := hc
  rw [Bool.and_eq_true, Bool.not_eq_true', Bool.or_eq_false_iff, Bool.not_eq_false'] at hc
  exact ⟨hc.2.2, hc.2.1, hc.1⟩

/-- **A fetched word is one of the RAM**, of a cycle behind every flush. -/
theorem instrIn_of_answered {a : Word} (hflush : (icacheIns P m ins t).flush = true) (htn : t < n)
    (hans : Icache.answered P.icache (reset m).icache (icacheIns P m ins) n = some a)
    (ha : isRam a = true) :
    physInstrAddr (run P m ins n) = a ∧
      ∃ k, t < k ∧ k ≤ n ∧
        (cpuIns P m ins n).instrIn = (run P m ins k).bus.mem.words (DcacheParams.wordAddr a) := by
  have haddr : (icacheIns P m ins n).addr = a := (Icache.hit_of_answered hans ha).2
  refine ⟨haddr, ?_⟩
  obtain ⟨k, hkn, hafter, hword⟩ :=
    (Icache.run_fresh P.icache m.icacheData m.icacheTag m.icacheDataRd m.icacheTagRd
      (icacheIns P m ins) (fetchHistory P m ins) served_run).1 n a hans ha
  refine ⟨k, hafter t htn hflush, hkn, ?_⟩
  rw [← UnifiedMem.fetchWord_of_ram _ ha]
  have hc : (run P m ins n).icache =
      Icache.run P.icache (reset m).icache (icacheIns P m ins) n := run_icache n
  change Icache.rdata P.icache (run P m ins n).icache (icacheIns P m ins n) = _
  rw [hc]
  exact hword

/-- **FENCE.I makes older stores executable.** In every run of the SoC, once FENCE.I has left EX in
cycle `t`. -/
theorem run_fencedFetch (P : TopParams) (m : PowerOn) (ins : ℕ → TopIn) (t : ℕ)
    (h : RiscvCpu.instrCacheFlush (run P m ins t).cpu (cpuIns P m ins t) = true) :
    FencedFetch P m ins t := by
  obtain ⟨programPc, hf⟩ := @frontInv_run P m ins t
  obtain ⟨hact, hj⟩ := RiscvCpu.jSignal_of_instrCacheFlush hf h
  obtain ⟨hquiet, hempty, hclean⟩ := settled_of_fenceI h
  have hram : ByteLanes.bytes (run P m ins t).bus.mem.words = ramOrder P m ins t := by
    rw [← ramMemory_run, DataBus.ramMemory_of_clean (queueInv_run t) hempty hclean]
  refine ⟨RiscvCpu.emptied_of_jSignal hj, RiscvCpu.memWait_of_active hact,
    fun k _ => accepted_of_moves, hquiet, hram, fun n htn _ a hans ha hno => ?_⟩
  obtain ⟨haddr, k, htk, hkn, hword⟩ := instrIn_of_answered h htn hans ha
  refine ⟨haddr, ?_⟩
  -- The word is settled at the fence, and stays so up to the cycle in which it was read.
  have ht := DataBus.settled_of_clean (queueInv_run t) hempty hclean (DcacheParams.wordAddr a)
  rw [run_bus] at ht
  have hk := DataBus.settled_run queueInv_reset alignedAccess ht (Nat.le_of_lt htk)
    fun j htj hjk => by
      rw [← run_bus]
      exact hno j htj (by omega)
  rw [hword, ← hram, ByteLanes.loadWord_bytes _ (Nat.mul_mod_right 4 _),
    Nat.mul_div_cancel_left _ (by decide), run_bus, run_bus]
  exact hk.word

/-- `lui x1, 0x500; addi x1, x1, 0x193; auipc x2, 0; sw x1, 16(x2); fence.i`: the store replaces the
second NOP behind the fence by `addi x3, x0, 5`. -/
def patchImage : UnifiedMem := fun w =>
  [0x005000B7#32, 0x19308093#32, 0x00000117#32, 0x00112823#32, 0x0000100F#32, nopInstr, nopInstr,
    0x0000006F#32].getD w nopInstr

/-- The store is accepted in cycle 14, the fence leaves EX in cycle 31, and what has been stored is
executed behind it. -/
theorem run_fencedFetch_patch :
    (DataBus.storeBufPushReq smallSoc.bus (run smallSoc (zeroOn patchImage) quietIn 14).bus
        (dataIns smallSoc (zeroOn patchImage) quietIn 14) = true ∧
      RiscvCpu.instrCacheFlush (run smallSoc (zeroOn patchImage) quietIn 31).cpu
        (cpuIns smallSoc (zeroOn patchImage) quietIn 31) = true ∧
      (run smallSoc (zeroOn patchImage) quietIn 46).cpu.registerFile 3#5 = 5#32) ∧
      FencedFetch smallSoc (zeroOn patchImage) quietIn 31 := by
  have h : RiscvCpu.instrCacheFlush (run smallSoc (zeroOn patchImage) quietIn 31).cpu
      (cpuIns smallSoc (zeroOn patchImage) quietIn 31) = true := by decide +kernel
  exact ⟨⟨by decide +kernel, h, by decide +kernel⟩, run_fencedFetch _ _ _ _ h⟩

end Top

end Synapse32
