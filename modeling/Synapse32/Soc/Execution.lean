import Synapse32.Cache.FetchProgress
import Synapse32.Data.Progress
import Synapse32.Soc.Program

/-! # Programs run to their end

The SoC executes every instruction of a program in its RAM: its caches, adapters and store buffer
answer each fetch and each access, and drain for each fence, so the timing that they give the core
is a fair one. -/

namespace Synapse32

open ByteLanes

/-! ## Programs that have done their work -/

namespace SeqRun

variable {code : Word → Word} (r : SeqRun code)

/-- No instruction from the `k`-th on writes a register. -/
def RegsDone (k : ℕ) : Prop := ∀ j ≥ k, (r.outcome j).writes = []

/-- No instruction from the `k`-th on writes the memory. -/
def MemDone (k : ℕ) : Prop := ∀ j ≥ k, ∀ a be v, .write a be v ∉ (r.outcome j).accesses

/-- No instruction from the `k`-th on accesses anything. -/
def AccessesDone (k : ℕ) : Prop := ∀ j ≥ k, (r.outcome j).accesses = []

variable {r}

/-- When the accesses are done they stay what they are. -/
theorem AccessesDone.accesses_eq {k : ℕ} (h : r.AccessesDone k) {j : ℕ} (hj : k ≤ j) :
    r.accesses j = r.accesses k := by
  induction j, hj using Nat.le_induction with
  | base => rfl
  | succ j hj ih => rw [accesses_succ, h j hj, List.append_nil, ih]

/-- When the register writes are done they stay what they are. -/
theorem RegsDone.writes_eq {k : ℕ} (h : r.RegsDone k) {j : ℕ} (hj : k ≤ j) :
    r.writes j = r.writes k := by
  induction j, hj using Nat.le_induction with
  | base => rfl
  | succ j hj ih => rw [writes_succ, h j hj, List.append_nil, ih]

/-- Behind the last write only reads follow. -/
theorem MemDone.accesses_eq {k : ℕ} (h : r.MemDone k) {j : ℕ} (hj : k ≤ j) :
    ∃ t, r.accesses j = r.accesses k ++ t ∧ ∀ a be v, .write a be v ∉ t := by
  induction j, hj using Nat.le_induction with
  | base => exact ⟨[], (List.append_nil _).symm, fun _ _ _ => List.not_mem_nil⟩
  | succ j hj ih =>
    obtain ⟨t, ht, hno⟩ := ih
    refine ⟨t ++ (r.outcome j).accesses, ?_, ?_⟩
    · rw [accesses_succ, ht, List.append_assoc]
    · intro a be v hmem
      rcases List.mem_append.mp hmem with hmem | hmem
      · exact hno a be v hmem
      · exact h j hj a be v hmem

end SeqRun

/-! ## What a waiting core holds -/

namespace RiscvCpu

variable {code : Word → Word} {r : SeqRun code} {s : RiscvCpu} {l : Ledger} {pend : Option Word}
  {i : CpuIn}

/-- **An access that waits for its first answer stays as it is.** -/
theorem Sim.access_next (h : Sim r s l pend) (hc : Cycle r s l pend i)
    (hreq : (memRdEn s || memWrEn s) = true) (hrv : i.dataRvalidIn = false) :
    (RiscvCpu.next s i).exMem = s.exMem ∧ memRdEn (RiscvCpu.next s i) = memRdEn s ∧
      memWrEn (RiscvCpu.next s i) = memWrEn s := by
  have hw : memWait s i = true := by
    rw [memWait, hreq, hrv, (h.noPageFault hc).1]
    rfl
  have hex : (RiscvCpu.next s i).exMem = s.exMem := by
    rcases mem_cases (i := i) h.front with ⟨-, -, hex⟩ | ⟨hw', -, -⟩ | ⟨hw', -, -⟩
    · exact hex
    · exact absurd (hw.symm.trans hw') (by decide)
    · exact absurd (hw.symm.trans hw') (by decide)
  have hphase : (RiscvCpu.next s i).amoWritePhase = s.amoWritePhase := by
    rw [next_amoWritePhase, hrv, Bool.and_false, Bool.and_false]
    rfl
  have hlsu : (RiscvCpu.next s i).atomicLsu = s.atomicLsu := by
    change s.atomicLsu.next _ _ (memWait s i) _ _ = _
    rw [hw]
    rfl
  refine ⟨hex, ?_, ?_⟩
  · rw [memRdEn, atomicReadEnable, isLrW, isAmoW, hex, hphase]
    rfl
  · rw [memWrEn, atomicWriteEnable, exMemStdStoreReq, exMemStoreBe, isScW, isAmoW, scSuccess, hex,
      hphase, hlsu]
    rfl

/-- A fence that waits for the store buffer stays in EX, and nothing leaves EX. -/
theorem Sim.fence_next (h : Sim r s l pend) (hc : Cycle r s l pend i)
    (hv : s.idEx.instrValid = true) (hf : Decoder.isFence s.idEx.dec.instrId = true)
    (hbuf : i.storeBufferEmptyIn = false) :
    RiscvCpu.issues s i = false ∧ (RiscvCpu.next s i).idEx.instrValid = true ∧
      Decoder.isFence (RiscvCpu.next s i).idEx.dec.instrId = true := by
  have hstall : fenceDrainStall s i = true := by
    rw [Decoder.isFence] at hf
    rw [fenceDrainStall, hv, hbuf, hf]
    rfl
  have hno : RiscvCpu.issues s i = false := by
    rw [RiscvCpu.issues, exStageActive, hstall, Bool.not_true, Bool.and_false, Bool.and_false,
      Bool.false_and]
  have hhold : pipelineHold s i = true := by
    rw [pipelineHold, hstall, Bool.or_true, Bool.true_or]
  refine ⟨hno, ?_⟩
  rcases front_cases s i with ⟨hj, -⟩ | ⟨-, -, -, -, hex⟩ | ⟨-, -, -, hh, -⟩ | ⟨-, hh, -⟩
  · exact absurd ((h.noJump hc hno).symm.trans hj) Bool.false_ne_true
  · rw [hex]
    exact ⟨hv, hf⟩
  · exact absurd (hh.symm.trans hhold) Bool.false_ne_true
  · exact absurd (hh.symm.trans hhold) Bool.false_ne_true

/-- **Without an answer the PC stays**, unless EX redirects it; and an empty front end stays empty
and redirects nothing. -/
theorem Sim.starved (h : Sim r s l pend) (hc : Cycle r s l pend i)
    (hrv : i.instrRvalidIn = false) :
    (jSignal s i = false → (RiscvCpu.next s i).pc = s.pc) ∧
      (jSignal s i = true → (RiscvCpu.next s i).idEx.instrValid = false ∧
        (RiscvCpu.next s i).ifId.instructionValid = false) ∧
      (s.idEx.instrValid = false → s.ifId.instructionValid = false → jSignal s i = false ∧
        (RiscvCpu.next s i).idEx.instrValid = false ∧
        (RiscvCpu.next s i).ifId.instructionValid = false) := by
  have hwait : fetchWait s i = true := by
    rw [fetchWait, fetchResponseValid, hrv, hc.noFault.2.2]
    rfl
  refine ⟨fun hj => ?_, fun hj => ?_, fun hex hid => ?_⟩
  · rcases front_cases s i with ⟨hj', -⟩ | ⟨-, hpc, -⟩ | ⟨-, hpc, -⟩ |
      ⟨-, -, -, -, ⟨-, hpc, -⟩ | ⟨hw, -⟩⟩
    · exact absurd (hj.symm.trans hj') Bool.false_ne_true
    · exact hpc
    · exact hpc
    · exact hpc
    · exact absurd (hw.symm.trans hwait) Bool.false_ne_true
  · rcases front_cases s i with ⟨-, -, hid, hex⟩ | ⟨hj', -⟩ | ⟨hj', -⟩ | ⟨hj', -⟩
    · rw [hid, hex]
      exact ⟨rfl, rfl⟩
    all_goals exact absurd (hj'.symm.trans hj) Bool.false_ne_true
  · have hno : RiscvCpu.issues s i = false := by
      rw [RiscvCpu.issues, hex, Bool.false_and, Bool.false_and]
    have hj := h.noJump hc hno
    refine ⟨hj, ?_⟩
    rcases front_cases s i with ⟨hj', -⟩ | ⟨-, -, hid', -, hex'⟩ | ⟨-, -, hid', -, -, hex'⟩ |
      ⟨-, -, -, hex', ⟨-, -, hid'⟩ | ⟨hw, -⟩⟩
    · exact absurd (hj.symm.trans hj') Bool.false_ne_true
    · rw [hid', hex']
      exact ⟨hex, hid⟩
    · rw [hid', hex']
      exact ⟨rfl, hid⟩
    · rw [hid', hex']
      exact ⟨hid, rfl⟩
    · exact absurd (hw.symm.trans hwait) Bool.false_ne_true

/-- The program flushes no instruction cache. -/
theorem Sim.noFlush (h : Sim r s l pend) (i : CpuIn) : instrCacheFlush s i = false := by
  rw [instrCacheFlush]
  cases hv : s.idEx.instrValid
  · rw [Bool.and_false, Bool.false_and]
  · rw [(h.decoded hv).1, beq_eq_false_iff_ne.mpr (not_fenceI _), Bool.and_false]

end RiscvCpu

/-- An adapter with latency keeps what it has taken, or answers it. -/
theorem MemAdapter.pending_next {latency : ℕ} {a : MemAdapter} {req : Bool} {x : StoreReq}
    {rdata : Word} (h0 : latency ≠ 0) (h : a.busy = true ∨ a.gnt latency req = true) :
    (a.next latency req x rdata).busy = true ∨ (a.next latency req x rdata).rvalid = true := by
  rw [MemAdapter.next, if_neg h0]
  split
  · split
    · exact .inr rfl
    · exact .inl rfl
  · rename_i hg
    split
    · exact .inr rfl
    · have hb := h.resolve_right hg
      rw [if_pos hb]
      exact .inl hb

namespace Top

variable {P : TopParams} {m : PowerOn} {ins : ℕ → TopIn}

/-! ## The fetch side -/

/-- What the adapter of the fetch side reads in each cycle. -/
def fetchWaveform (P : TopParams) (m : PowerOn) (ins : ℕ → TopIn) (n : ℕ) : MemAdapter.Waveform :=
  ⟨icacheMemReq (run P m ins n), icacheStore P (run P m ins n), instrStoreRdata P (run P m ins n)⟩

/-- The fetch adapter sees the waveform on its port. -/
theorem run_instrAdapter (n : ℕ) : (run P m ins n).instrAdapter =
    MemAdapter.runFrom P.fetchLatency (fetchWaveform P m ins) n := by
  induction n with
  | zero => rfl
  | succ n ih =>
    exact congrArg (fun a => MemAdapter.edge P.fetchLatency a (fetchWaveform P m ins n)) ih

/-- **A granted fetch is in the adapter** until its answer. -/
theorem pending_of_bypass {n : ℕ} (hs : (run P m ins n).icache.state = .bypass) :
    (run P m ins n).instrAdapter.busy = true ∨ (run P m ins n).instrAdapter.rvalid = true := by
  induction n with
  | zero => cases hs
  | succ n ih =>
    set c := (run P m ins n).icache
    set x := icacheIns P m ins n
    set a := (run P m ins n).instrAdapter
    have hstate : Icache.nextState P.icache c x = .bypass := hs
    have hgnt : x.memGnt = a.gnt P.fetchLatency (icacheMemReq (run P m ins n)) := rfl
    have hrv : x.memRvalid = a.rvalidOut P.fetchLatency (icacheMemReq (run P m ins n)) := rfl
    -- The cache waits behind a grant, and goes on waiting without an answer.
    have htaken : x.memRvalid = false ∧ (c.state = .bypass ∨ x.memGnt = true) := by
      rw [Icache.nextState] at hstate
      cases hc : c.state <;> rw [hc] at hstate <;> dsimp only at hstate
      case fill => split at hstate <;> cases hstate
      case refill => cases hstate
      case idle =>
        split at hstate
        · cases hstate
        · split at hstate
          · rename_i hb
            simp only [Bool.and_eq_true, Bool.not_eq_true'] at hb
            exact ⟨hb.2, .inr hb.1.2⟩
          · cases hstate
      case bypass =>
        split at hstate
        · cases hstate
        · rename_i hv
          exact ⟨Bool.eq_false_of_not_eq_true hv, .inl rfl⟩
    obtain ⟨hv, hc⟩ := htaken
    by_cases h0 : P.fetchLatency = 0
    · -- Without latency a grant is an answer, so the cache never waits.
      rcases hc with hc | hg
      · have hadapter : ∀ k, (run P m ins k).instrAdapter = MemAdapter.reset := by
          intro k
          rw [run_instrAdapter, h0, MemAdapter.runFrom_zero]
        have hidle := ih hc
        change a.busy = true ∨ a.rvalid = true at hidle
        rw [show a = MemAdapter.reset from hadapter n] at hidle
        exact absurd hidle (by decide)
      · rw [hgnt, MemAdapter.gnt, if_pos h0] at hg
        rw [hrv, MemAdapter.rvalidOut, if_pos h0, hg] at hv
        exact absurd hv.symm Bool.false_ne_true
    · apply MemAdapter.pending_next h0
      rcases hc with hc | hg
      · refine .inl ((ih hc).resolve_right fun hr => ?_)
        rw [hrv, MemAdapter.rvalidOut, if_neg h0] at hv
        exact Bool.false_ne_true (hv.symm.trans hr)
      · exact .inr (hgnt.symm.trans hg)

/-- **The adapter goes on answering the instruction cache**, in every run. -/
theorem heard_run (hl : P.fetchLatency ≤ 256) (n0 : ℕ) :
    Icache.Heard P.icache (reset m).icache (icacheIns P m ins) n0 where
  grants n _ hby := by
    rw [← run_icache] at hby
    have hidle : (run P m ins n).icache.state = .idle := by
      simp only [Icache.bypassReq, Bool.and_eq_true, beq_iff_eq] at hby
      exact hby.2
    have hreq : icacheMemReq (run P m ins n) = true := by
      change ((run P m ins n).icache.state == .fill || Icache.bypassReq _ _) = true
      rw [Bool.or_eq_true]
      exact .inr hby
    -- While the cache is idle the adapter is at rest.
    have hrest : ¬ ((run P m ins n).instrAdapter.busy = true ∨
        (run P m ins n).instrAdapter.rvalid = true) := by
      intro hw
      rcases (fetchPort_run n).waits hw with hs | hs
      · exact absurd (hidle.symm.trans hs) (by decide)
      · exact absurd (hidle.symm.trans hs) (by decide)
    simp only [not_or, Bool.not_eq_true] at hrest
    refine ⟨n, le_rfl, ?_⟩
    change (run P m ins n).instrAdapter.gnt P.fetchLatency (icacheMemReq (run P m ins n)) = true
    rw [MemAdapter.gnt, hreq, hrest.1, hrest.2]
    exact ite_self _
  answers n _ hs := by
    rw [← run_icache] at hs
    have hpend : (MemAdapter.runFrom P.fetchLatency (fetchWaveform P m ins) n).busy = true ∨
        (MemAdapter.runFrom P.fetchLatency (fetchWaveform P m ins) n).rvalid = true ∨
        (fetchWaveform P m ins n).req = true := by
      rw [← run_instrAdapter]
      rcases hs with hs | hs
      · refine .inr (.inr ?_)
        change ((run P m ins n).icache.state == .fill || _) = true
        rw [hs]
        rfl
      · exact (pending_of_bypass hs).imp_right .inl
    obtain ⟨k, hk, -, hv⟩ := MemAdapter.exists_answered hl hpend
    rw [MemAdapter.Answered, ← run_instrAdapter] at hv
    exact ⟨k, hk, hv⟩

/-! ## A fair timing -/

section Fair

variable {r : SeqRun m.mem.fetch} (hr : RamProgram m r)
include hr

/-- What the SoC does to its core is what the memory interface may do. -/
theorem cycle_run (n : ℕ) : RiscvCpu.Cycle r (run P m ins n).cpu
    (RiscvCpu.ledger (RiscvCpu.start (r.hart 0)) (cpuIns P m ins) n) none (cpuIns P m ins n) :=
  (inStep_run hr n).cycle hr fun k _ => inStep_run hr k

/-- **Data accesses are answered.** -/
theorem data_answered (hl : P.bus.memLatency ≤ 256) {n : ℕ}
    (hreq : (RiscvCpu.memRdEn (run P m ins n).cpu || RiscvCpu.memWrEn (run P m ins n).cpu) = true) :
    ∃ k ≥ n, (cpuIns P m ins k).dataRvalidIn = true := by
  by_contra hnone
  have hno : ∀ k ≥ n, (cpuIns P m ins k).dataRvalidIn = false :=
    fun k hk => Bool.eq_false_of_not_eq_true fun hv => hnone ⟨k, hk, hv⟩
  have hin : ∀ k, InStep P m ins r k := inStep_run hr
  -- So the access is held for ever.
  have hheld : ∀ k ≥ n, (run P m ins k).cpu.exMem = (run P m ins n).cpu.exMem ∧
      RiscvCpu.memRdEn (run P m ins k).cpu = RiscvCpu.memRdEn (run P m ins n).cpu ∧
      RiscvCpu.memWrEn (run P m ins k).cpu = RiscvCpu.memWrEn (run P m ins n).cpu := by
    intro k hk
    induction k, hk using Nat.le_induction with
    | base => exact ⟨rfl, rfl, rfl⟩
    | succ k hk ih =>
      obtain ⟨hex, hrd, hwr⟩ := ih
      obtain ⟨hex', hrd', hwr'⟩ := (hin k).core.access_next
        (cycle_run hr k) (by rw [hrd, hwr]; exact hreq) (hno k hk)
      exact ⟨hex'.trans hex, hrd'.trans hrd, hwr'.trans hwr⟩
  have hpresents : ∀ k ≥ n, DataBus.Presents (dataIns P m ins k)
      (run P m ins n).cpu.exMem.memAddr (RiscvCpu.memWrEn (run P m ins n).cpu) := by
    intro k hk
    obtain ⟨hex, hrd, hwr⟩ := hheld k hk
    obtain ⟨haddr, hready, hlpf, hspf⟩ := data_of_satp (hin k).satp
    refine ⟨?_, haddr.trans (congrArg ExMem.memAddr hex), hwr⟩
    change ((RiscvCpu.memRdEn (run P m ins k).cpu || RiscvCpu.memWrEn (run P m ins k).cpu) &&
      !cpuLoadPageFault (run P m ins k) && !cpuStorePageFault (run P m ins k) &&
      mmuDataReady (run P m ins k)) = true
    rw [hrd, hwr, hreq, hready, hlpf, hspf]
    rfl
  have h0 : DataBus.ProgressInv P.bus (reset m).bus := DataBus.progressInv_reset _ _ _ _ _
  obtain ⟨k, hk, hv⟩ := DataBus.core_answered hl h0 rfl alignedAccess fun k hk _ => hpresents k hk
  rw [← run_bus] at hv
  exact hnone ⟨k, hk, hv⟩

/-- **The store buffer drains for a fence.** -/
theorem fence_drained (hl : P.bus.memLatency ≤ 256) {n : ℕ}
    (hf : RiscvCpu.fenceDrainStall (run P m ins n).cpu (cpuIns P m ins n) = true) :
    ∃ k ≥ n, (cpuIns P m ins k).storeBufferEmptyIn = true := by
  by_contra hnone
  have hno : ∀ k ≥ n, (cpuIns P m ins k).storeBufferEmptyIn = false :=
    fun k hk => Bool.eq_false_of_not_eq_true fun hv => hnone ⟨k, hk, hv⟩
  have hin : ∀ k, InStep P m ins r k := inStep_run hr
  -- The fence stays in EX, so no access follows those in MEM.
  have hfence : ∀ k ≥ n, (run P m ins k).cpu.idEx.instrValid = true ∧
      Decoder.isFence (run P m ins k).cpu.idEx.dec.instrId = true := by
    intro k hk
    induction k, hk using Nat.le_induction with
    | base =>
      refine ⟨?_, RiscvCpu.isFence_of_fenceDrainStall hf⟩
      rw [RiscvCpu.fenceDrainStall, Bool.and_eq_true] at hf
      exact hf.1
    | succ k hk ih =>
      exact ((hin k).core.fence_next (cycle_run hr k) ih.1 ih.2 (hno k hk)).2
  have hissue : ∀ k ≥ n, RiscvCpu.issues (run P m ins k).cpu (cpuIns P m ins k) = false :=
    fun k hk => ((hin k).core.fence_next (cycle_run hr k) (hfence k hk).1 (hfence k hk).2
      (hno k hk)).1
  have hdata : ∀ k ≥ n,
      (RiscvCpu.memRdEn (RiscvCpu.runFrom (RiscvCpu.start (r.hart 0)) (cpuIns P m ins) k) ||
        RiscvCpu.memWrEn (RiscvCpu.runFrom (RiscvCpu.start (r.hart 0)) (cpuIns P m ins) k)) =
        true → ∃ j ≥ k, (cpuIns P m ins j).dataRvalidIn = true := by
    intro k _ hreq
    rw [← cpu_eq_runFrom hr] at hreq
    exact data_answered hr hl hreq
  obtain ⟨k0, hk0, hmove⟩ := RiscvCpu.exists_move_of_data hdata
  rw [← cpu_eq_runFrom hr] at hmove
  have hstep : ∀ k ≥ n, RiscvCpu.memWait (run P m ins k).cpu (cpuIns P m ins k) = false →
      (run P m ins (k + 1)).cpu.exMem.Inert := by
    intro k hk hw
    rcases RiscvCpu.mem_cases (i := cpuIns P m ins k) (hin k).core.front with
      ⟨hw', -⟩ | ⟨-, hi', -⟩ | ⟨-, -, hx⟩
    · exact absurd (hw.symm.trans hw') Bool.false_ne_true
    · exact absurd ((hissue k hk).symm.trans hi') Bool.false_ne_true
    · exact hx
  have hinert : ∀ k ≥ k0 + 1, (run P m ins k).cpu.exMem.Inert := by
    intro k hk
    induction k, hk using Nat.le_induction with
    | base => exact hstep k0 hk0 hmove
    | succ k hk ih => exact hstep k (by omega) (RiscvCpu.memWait_of_inert ih)
  have hquiet : ∀ k ≥ k0 + 1, DataBus.cpuDataBusReq (dataIns P m ins k) = false := by
    intro k hk
    obtain ⟨hrd, hwr⟩ := RiscvCpu.memRequests_of_inert (hinert k hk)
    change ((RiscvCpu.memRdEn (run P m ins k).cpu || RiscvCpu.memWrEn (run P m ins k).cpu) &&
      !cpuLoadPageFault (run P m ins k) && !cpuStorePageFault (run P m ins k) &&
      mmuDataReady (run P m ins k)) = false
    rw [hrd, hwr]
    rfl
  have h0 : DataBus.ProgressInv P.bus (reset m).bus := DataBus.progressInv_reset _ _ _ _ _
  obtain ⟨k, hk, hempty⟩ := DataBus.exists_empty hl h0 rfl alignedAccess fun k hk _ => hquiet k hk
  rw [← run_bus] at hempty
  have hpush : DataBus.storeBufPushReq P.bus (run P m ins k).bus (dataIns P m ins k) = false := by
    rw [DataBus.storeBufPushReq, hquiet k hk]
    rfl
  exact hnone ⟨k, by omega, DataBus.drained_of_empty hempty hpush⟩

/-- **Fetches go on being answered.** -/
theorem fetch_answers (hl : P.fetchLatency ≤ 256) (n : ℕ) :
    ∃ k ≥ n, (cpuIns P m ins k).instrRvalidIn = true := by
  by_contra hnone
  have hno : ∀ k ≥ n, (cpuIns P m ins k).instrRvalidIn = false :=
    fun k hk => Bool.eq_false_of_not_eq_true fun hv => hnone ⟨k, hk, hv⟩
  have hin : ∀ k, InStep P m ins r k := inStep_run hr
  have hstarved := fun k hk => (hin k).core.starved (cycle_run hr k) (hno k hk)
  -- A starving core redirects at most once, so in the end it holds its PC.
  obtain ⟨n0, hn0, hpc⟩ :
      ∃ n0 ≥ n, ∀ k ≥ n0, (run P m ins (k + 1)).cpu.pc = (run P m ins k).cpu.pc := by
    by_cases hj : ∃ k ≥ n, RiscvCpu.jSignal (run P m ins k).cpu (cpuIns P m ins k) = true
    · obtain ⟨j, hj, hjump⟩ := hj
      have hempty : ∀ k ≥ j + 1, (run P m ins k).cpu.idEx.instrValid = false ∧
          (run P m ins k).cpu.ifId.instructionValid = false := by
        intro k hk
        induction k, hk using Nat.le_induction with
        | base => exact (hstarved j hj).2.1 hjump
        | succ k hk ih => exact ((hstarved k (by omega)).2.2 ih.1 ih.2).2
      refine ⟨j + 1, by omega, fun k hk => (hstarved k (by omega)).1 ?_⟩
      exact ((hstarved k (by omega)).2.2 (hempty k hk).1 (hempty k hk).2).1
    · refine ⟨n, le_rfl, fun k hk => (hstarved k hk).1 ?_⟩
      exact Bool.eq_false_of_not_eq_true fun hjump => hj ⟨k, hk, hjump⟩
  have hconst : ∀ k ≥ n0, (run P m ins k).cpu.pc = (run P m ins n0).cpu.pc := by
    intro k hk
    induction k, hk using Nat.le_induction with
    | base => rfl
    | succ k hk ih => exact (hpc k hk).trans ih
  -- The cache is asked for that word for ever, and so hits it.
  have hasks : ∀ k ≥ n0, Icache.Asks (icacheIns P m ins k) (run P m ins n0).cpu.pc := by
    intro k hk
    obtain ⟨haddr, hready, hfault⟩ := fetch_of_satp (hin k).satp
    refine ⟨?_, haddr.trans (hconst k hk), (hin k).core.noFlush (cpuIns P m ins k)⟩
    change (mmuInstrReady (run P m ins k) && !cpuInstrPageFault (run P m ins k)) = true
    rw [hready, hfault]
    rfl
  have hinv : ∀ k, Icache.Inv P.icache (reset m).icache (icacheIns P m ins) (fetchHistory P m ins) k
      (Icache.run P.icache (reset m).icache (icacheIns P m ins) k) :=
    Icache.inv_run (Icache.inv_reset _ _ _ _) served_run
  obtain ⟨k, hk, hhit⟩ := Icache.exists_hit hinv (heard_run hl n0)
    (hr.text _ (hin n0).core.fetches_pc) hasks
  rw [← run_icache] at hhit
  exact hnone ⟨k, by omega, ((hin k).hit hr).2.trans hhit⟩

/-- **The SoC times its core fairly.** -/
theorem fair_of_program (hm : P.bus.memLatency ≤ 256) (hf : P.fetchLatency ≤ 256) :
    RiscvCpu.Fair (r.hart 0) (cpuIns P m ins) where
  fetch := fetch_answers hr hf
  data n hreq := by
    rw [← cpu_eq_runFrom hr] at hreq
    exact data_answered hr hm hreq
  drain n hstall := by
    rw [← cpu_eq_runFrom hr] at hstall
    exact fence_drained hr hm hstall

/-- **Every instruction of the program is reached**: the logs of some cycle hold all that the first
`k` instructions write and access, and so do those of every later cycle. -/
theorem exists_executed (P : TopParams) (ins : ℕ → TopIn) (hm : P.bus.memLatency ≤ 256)
    (hf : P.fetchLatency ≤ 256) (k : ℕ) :
    ∃ n0, ∀ n ≥ n0, r.writes k <+: RiscvCpu.writeLog RiscvCpu.reset (cpuIns P m ins) n ∧
      r.accesses k <+: RiscvCpu.accessLog RiscvCpu.reset (cpuIns P m ins) n := by
  have hi : RiscvCpu.Interface m.mem.fetch (r.hart 0) (cpuIns P m ins) := interface_of_program hr
  obtain ⟨n, hn⟩ := RiscvCpu.exists_left hr.pc hr.reserved hi (fair_of_program hr hm hf) k
  refine ⟨n + 1, fun j hj => ?_⟩
  rw [← start_eq_reset hr]
  induction j, hj using Nat.le_induction with
  | base =>
    constructor
    · rw [RiscvCpu.writeLog_eq_writes hr.pc hr.reserved hi]
      exact r.writes_mono hn
    · rw [RiscvCpu.accessLog_succ, RiscvCpu.accessLog_eq (RiscvCpu.idle_start r.x0),
        (RiscvCpu.inStep hr.pc hr.reserved hi n).accesses, List.append_assoc]
      exact (r.accesses_mono hn).trans (List.prefix_append _ _)
  | succ j hj ih =>
    constructor
    · rw [RiscvCpu.writeLog_succ]
      exact ih.1.trans (List.prefix_append _ _)
    · rw [RiscvCpu.accessLog_succ]
      exact ih.2.trans (List.prefix_append _ _)

/-- **The register file settles** on that of the program, once the program writes no more. -/
theorem exists_registers (hm : P.bus.memLatency ≤ 256) (hf : P.fetchLatency ≤ 256) {k : ℕ}
    (hk : r.RegsDone k) : ∃ n0, ∀ n ≥ n0, (run P m ins n).cpu.registerFile = (r.hart k).regs := by
  obtain ⟨n0, hn0⟩ := exists_executed hr P ins hm hf k
  refine ⟨n0, fun n hn => ?_⟩
  have hlog : RiscvCpu.writeLog RiscvCpu.reset (cpuIns P m ins) n = r.writes k := by
    obtain ⟨j, hj, -⟩ := logs_of_program P ins hr n
    have hle : RiscvCpu.writeLog RiscvCpu.reset (cpuIns P m ins) n <+: r.writes k := by
      rcases Nat.le_total k j with hkj | hjk
      · rwa [hk.writes_eq hkj] at hj
      · exact hj.trans (r.writes_mono hjk)
    exact hle.eq_of_length_le (hn0 n hn).1.length_le
  rw [cpu_eq_runFrom hr, (RiscvCpu.registerFile_eq (RiscvCpu.idle_start r.x0) n).1,
    start_eq_reset hr, hlog, r.regs_eq k, hr.regs]
  rfl

/-- **The RAM settles** on that of the program, once the program writes no more. -/
theorem exists_memory (hm : P.bus.memLatency ≤ 256) (hf : P.fetchLatency ≤ 256) {k : ℕ}
    (hk : r.MemDone k) :
    ∃ n0, ∀ n ≥ n0, AgreeOnRam (DataBus.ramMemory P.bus (run P m ins n).bus) (r.hart k).mem := by
  obtain ⟨n0, hn0⟩ := exists_executed hr P ins hm hf k
  refine ⟨n0, fun n hn => ?_⟩
  -- Behind the accesses of the first `k` instructions the log has reads only.
  obtain ⟨t, ht, hreads⟩ : ∃ t, RiscvCpu.accessLog RiscvCpu.reset (cpuIns P m ins) n =
      r.accesses k ++ t ∧ ∀ a be v, .write a be v ∉ t := by
    obtain ⟨t, ht⟩ := (hn0 n hn).2
    obtain ⟨j, -, hj⟩ := logs_of_program P ins hr n
    have hmax := hj.trans (r.accesses_mono (Nat.le_max_right k j))
    obtain ⟨rest, hrest, hno⟩ := hk.accesses_eq (Nat.le_max_left k j)
    rw [hrest, ← ht] at hmax
    have hsub := (List.prefix_append_right_inj _).mp hmax
    exact ⟨t, ht.symm, fun a be v hmem => hno a be v (hsub.subset hmem)⟩
  have hin : InStep P m ins r n := inStep_run hr n
  have hmem := hin.memory
  rw [RiscvCpu.dataMemory, start_eq_reset hr, ht, List.foldl_append, ← r.mem_eq k,
    foldl_apply_of_reads hreads] at hmem
  exact hmem

/-- **The devices have seen everything**, once the program makes no more accesses. -/
theorem exists_output (hm : P.bus.memLatency ≤ 256) (hf : P.fetchLatency ≤ 256) {k : ℕ}
    (hk : r.AccessesDone k) :
    ∃ n0, ∀ n ≥ n0, deviceLog P m ins n = deviceEvents (r.accesses k) := by
  obtain ⟨n1, hn1⟩ := exists_executed hr P ins hm hf k
  obtain ⟨n2, hn2⟩ := RiscvCpu.exists_left hr.pc hr.reserved (interface_of_program hr)
    (fair_of_program hr hm hf) k
  have hin : ∀ n, InStep P m ins r n := inStep_run hr
  -- Behind the last access the core is quiet, so the buffer drains.
  have hquiet : ∀ n ≥ n2, DataBus.cpuDataBusReq (dataIns P m ins n) = false := by
    intro n hn
    have hdone := hk _ (hn2.trans (RiscvCpu.left_mono hn).length_le)
    obtain ⟨hrd, hwr⟩ := (hin n).core.access
    have hrd : RiscvCpu.memRdEn (run P m ins n).cpu = false := by
      by_contra hc
      obtain ⟨kind, v, hmem⟩ := hrd (Bool.eq_true_of_not_eq_false hc)
      rw [hdone] at hmem
      exact absurd hmem List.not_mem_nil
    have hwr : RiscvCpu.memWrEn (run P m ins n).cpu = false := by
      by_contra hc
      obtain ⟨be, v, hmem⟩ := hwr (Bool.eq_true_of_not_eq_false hc)
      rw [hdone] at hmem
      exact absurd hmem List.not_mem_nil
    change ((RiscvCpu.memRdEn (run P m ins n).cpu || RiscvCpu.memWrEn (run P m ins n).cpu) &&
      !cpuLoadPageFault (run P m ins n) && !cpuStorePageFault (run P m ins n) &&
      mmuDataReady (run P m ins n)) = false
    rw [hrd, hwr]
    rfl
  have hempty : ∃ n0 ≥ n2, ∀ n ≥ n0, (run P m ins n).bus.buffer.empty = true := by
    have h0 : DataBus.ProgressInv P.bus (reset m).bus := DataBus.progressInv_reset _ _ _ _ _
    obtain ⟨n0, hn0, he⟩ := DataBus.exists_empty hm h0 rfl alignedAccess
      fun n (hn : n ≥ n2) _ => hquiet n hn
    rw [← run_bus] at he
    refine ⟨n0, hn0, fun n hn => ?_⟩
    induction n, hn using Nat.le_induction with
    | base => exact he
    | succ n hn ih =>
      have hpush :
          DataBus.storeBufPushReq P.bus (run P m ins n).bus (dataIns P m ins n) = false := by
        rw [DataBus.storeBufPushReq, hquiet n (hn0.trans hn)]
        rfl
      exact DataBus.empty_next (ownerInv_run n).toBusInv ih hpush
  obtain ⟨n0, hn0, hempty⟩ := hempty
  refine ⟨max n0 n1, fun n hn => ?_⟩
  have hlog : deviceLog P m ins n ++ _ = _ := deviceLog_of_program hr n
  rw [DataBus.pending_of_empty (ownerInv_run n) (hempty n (le_of_max_le_left hn))
    (hin n).coreRead (dataIns P m ins n), List.append_nil] at hlog
  -- The log is what the first `k` instructions access.
  have haccess : RiscvCpu.accessLog RiscvCpu.reset (cpuIns P m ins) n = r.accesses k := by
    obtain ⟨j, -, hj⟩ := logs_of_program P ins hr n
    have hmax := hj.trans (r.accesses_mono (Nat.le_max_right k j))
    rw [hk.accesses_eq (Nat.le_max_left k j)] at hmax
    exact hmax.eq_of_length_le (hn1 n (le_of_max_le_right hn)).2.length_le
  rw [hlog, haccess]

/-- **The SoC runs every program to its end**, with latencies up to 256. For a program in the RAM,
for all sizes of the caches and of the store buffer and all that the devices do: all that its first
instructions write and access is written and accessed in the end; once the program has done its
work, the register file and the RAM that memory, caches and store buffer hold together are, from
some cycle on and for ever, those of the instruction set; and the devices have then seen all of its
writes to them, each once and in program order, and nothing else. -/
theorem soc_executes (P : TopParams) (ins : ℕ → TopIn) (hm : P.bus.memLatency ≤ 256)
    (hf : P.fetchLatency ≤ 256) :
    (∀ k, ∃ n0, ∀ n ≥ n0,
      r.writes k <+: RiscvCpu.writeLog RiscvCpu.reset (cpuIns P m ins) n ∧
      r.accesses k <+: RiscvCpu.accessLog RiscvCpu.reset (cpuIns P m ins) n) ∧
    (∀ k, r.RegsDone k → ∃ n0, ∀ n ≥ n0, (run P m ins n).cpu.registerFile = (r.hart k).regs) ∧
    (∀ k, r.MemDone k → ∃ n0, ∀ n ≥ n0,
      AgreeOnRam (DataBus.ramMemory P.bus (run P m ins n).bus) (r.hart k).mem) ∧
    ∀ k, r.AccessesDone k → ∃ n0, ∀ n ≥ n0, deviceLog P m ins n = deviceEvents (r.accesses k) :=
  ⟨exists_executed hr P ins hm hf, fun _ => exists_registers hr hm hf,
    fun _ => exists_memory hr hm hf, fun _ => exists_output hr hm hf⟩

end Fair

/-- A RAM that takes three cycles for data and five for fetches. -/
def slowMemorySoc : TopParams where
  bus := DataBus.slowBus
  icache := Icache.threeWays
  fetchLatency := 5

/-- Two SoCs time their cores differently: the slow one executes all of the program too, and so
shows all that the fast one shows. -/
theorem run_simulates_storeLoad :
    (∃ n, storeLoadRun.accesses 5 <+: RiscvCpu.accessLog (RiscvCpu.start (storeLoadRun.hart 0))
      (cpuIns slowMemorySoc storeLoadOn quietIn) n) ∧
    ∃ n, RiscvCpu.writeLog (RiscvCpu.start (storeLoadRun.hart 0))
        (cpuIns smallSoc storeLoadOn quietIn) 60 <+:
        RiscvCpu.writeLog (RiscvCpu.start (storeLoadRun.hart 0))
          (cpuIns slowMemorySoc storeLoadOn quietIn) n ∧
      RiscvCpu.accessLog (RiscvCpu.start (storeLoadRun.hart 0))
        (cpuIns smallSoc storeLoadOn quietIn) 60 <+:
        RiscvCpu.accessLog (RiscvCpu.start (storeLoadRun.hart 0))
          (cpuIns slowMemorySoc storeLoadOn quietIn) n := by
  have hr := storeLoad_program
  have hsmall : RiscvCpu.Interface storeLoadOn.mem.fetch (storeLoadRun.hart 0)
      (cpuIns smallSoc storeLoadOn quietIn) := interface_of_program hr
  have hslow : RiscvCpu.Interface storeLoadOn.mem.fetch (storeLoadRun.hart 0)
      (cpuIns slowMemorySoc storeLoadOn quietIn) := interface_of_program hr
  obtain ⟨-, hlive, hsame⟩ := RiscvCpu.run_simulates hr.pc hr.reserved hsmall hslow
    (fair_of_program hr (by decide) (by decide))
  obtain ⟨n, -, hn⟩ := hlive 5
  exact ⟨⟨n, hn⟩, hsame 60⟩

/-- The program stores and loads its word, writes it to the UART, and then jumps to itself. -/
theorem soc_executes_storeLoad :
    ∃ n0, ∀ n ≥ n0, (run slowMemorySoc storeLoadOn quietIn n).cpu.registerFile =
      (storeLoadRun.hart 5).regs ∧
      AgreeOnRam (DataBus.ramMemory slowMemorySoc.bus
        (run slowMemorySoc storeLoadOn quietIn n).bus) (storeLoadRun.hart 5).mem ∧
      deviceLog slowMemorySoc storeLoadOn quietIn n =
        [.write 0x20000000#32 0b1111#4 0x80001000#32] := by
  obtain ⟨-, hregs, hmem, hout⟩ := soc_executes storeLoad_program slowMemorySoc quietIn (by decide)
    (by decide)
  have hlast : ∀ j ≥ 5, (storeLoadRun.outcome j).writes = [] ∧
      (storeLoadRun.outcome j).accesses = [] := by
    intro j hj
    obtain ⟨k, rfl⟩ := Nat.exists_eq_add_of_le' hj
    exact ⟨rfl, rfl⟩
  obtain ⟨n1, h1⟩ := hregs 5 fun j hj => (hlast j hj).1
  obtain ⟨n2, h2⟩ := hmem 5 fun j hj a be v hmem => by
    rw [(hlast j hj).2] at hmem
    exact absurd hmem List.not_mem_nil
  obtain ⟨n3, h3⟩ := hout 5 fun j hj => (hlast j hj).2
  refine ⟨max n1 (max n2 n3), fun n hn => ⟨h1 n (by omega), h2 n (by omega), ?_⟩⟩
  rw [h3 n (by omega)]
  rfl

end Top

end Synapse32
