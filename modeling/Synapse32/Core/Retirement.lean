import Synapse32.Core.Privilege

/-! # `instret` counts retired instructions

`instret_increment` counts an instruction in the cycle it leaves EX. This file compares the counter
with the number of instructions that leave MEM without a page fault, between two cycles in which the
pipeline is empty. -/

namespace Synapse32

namespace CsrFile

/-- The action writes a half of the counter. -/
def setsInstret : CsrAction → Bool
  | .write r _ => r == 0xB02#12 || r == 0xB82#12
  | _ => false

/-- The counter after an action: only a write of one of its halves changes it. -/
theorem instretCounter_perform (f : CsrFile) {a : CsrAction} (h : setsInstret a = false) :
    (f.perform a).instretCounter = f.instretCounter := by
  cases a with
  | trap t =>
    change (f.enter t).instretCounter = _
    unfold enter
    split <;> rfl
  | mret => rfl
  | sret => rfl
  | write r d =>
    obtain ⟨hlow, hhigh⟩ : r ≠ 0xB02#12 ∧ r ≠ 0xB82#12 := by simpa [setsInstret] using h
    change (f.csrWrite r d).instretCounter = _
    unfold csrWrite
    simp only [apply_ite CsrFile.instretCounter, if_neg hlow, if_neg hhigh, ite_self]
  | none => rfl

end CsrFile

namespace RiscvCpu

variable {s : RiscvCpu} {i : CpuIn}

/-! ## What is counted -/

/-- The counter goes up at this edge, unless it is inhibited. -/
def counted (s : RiscvCpu) (i : CpuIn) : Bool :=
  instretIncrement s i && !CsrFile.writesMinstret (csrIn s i)

/-- A fetch page fault taken in EX over a word that decodes and raises no other exception:
`instret_increment` does not read `instr_stage_page_fault_taken`. -/
def fetchFaultCounted (s : RiscvCpu) (i : CpuIn) : Bool :=
  instrStagePageFaultTaken s i && s.idEx.dec.instrId != .invalid &&
    !synchronousExceptionTaken s i && !memStagePageFaultTaken s i &&
    !CsrFile.writesMinstret (csrIn s i)

/-- An instruction that leaves EX has an id. -/
theorem instrId_of_issues (h : issues s i = true) : s.idEx.dec.instrId ≠ .invalid := by
  intro hid
  simp only [issues, Bool.and_eq_true, Bool.not_eq_true'] at h
  obtain ⟨⟨hv, ha⟩, hx⟩ := h
  obtain ⟨hint, hsync⟩ := quiet_of_not_exMemFlush hx
  have hp := interruptPending_of_not_taken ha hint
  have hquiet : (exOut s i).synchronous = false := (quiet_of_not_synchronousException hsync).1
  rw [exOut, executionUnit, ExecutionUnit.reportInstr_synchronous] at hquiet
  have hen : (exIn s i).stageEnable = true := ha
  rw [hen] at hquiet
  change (ExecutionUnit.ungated (exIn s i)).synchronous = false at hquiet
  unfold ExecutionUnit.ungated at hquiet
  rw [hp, if_neg Bool.false_ne_true] at hquiet
  have hinvalid : (exIn s i).instrValid = true ∧ (exIn s i).instrId = .invalid := ⟨hv, hid⟩
  split at hquiet <;> exact Bool.false_ne_true hquiet.symm

/-- **An instruction that leaves EX increments.** -/
theorem instretIncrement_of_issues (h : issues s i = true) : instretIncrement s i = true := by
  have hid := instrId_of_issues h
  simp only [issues, Bool.and_eq_true, Bool.not_eq_true'] at h
  obtain ⟨⟨hv, ha⟩, hx⟩ := h
  simp only [exMemFlush, Bool.or_eq_false_iff] at hx
  obtain ⟨⟨⟨hm, hf⟩, hs⟩, hint⟩ := hx
  have htaken : (exOut s i).interruptTaken = false := by
    simpa [interruptTakenQualified, hs, hm, hf] using hint
  simp [instretIncrement, hv, ha, hid, htaken, hs, hm]

/-- **Nothing else increments**, a fetch page fault in EX apart. -/
theorem instretIncrement_of_not_issues (h : issues s i = false)
    (hf : instrStagePageFaultTaken s i = false) : instretIncrement s i = false := by
  by_contra hi
  simp only [instretIncrement, Bool.not_eq_false, Bool.and_eq_true, Bool.not_eq_true'] at hi
  obtain ⟨⟨⟨⟨⟨hv, ha⟩, -⟩, htaken⟩, hs⟩, hm⟩ := hi
  have hx : exMemFlush s i = false := by
    simp [exMemFlush, hm, hf, hs, interruptTakenQualified, htaken]
  rw [issues, hv, ha, hx] at h
  exact Bool.false_ne_true h.symm

/-- A fetch page fault in EX increments unless the word raises an exception of its own. -/
theorem counted_of_fetchFault (hf : instrStagePageFaultTaken s i = true) :
    counted s i = fetchFaultCounted s i := by
  have hp : (exIn s i).interruptPending = false := by
    change ((interrupt s).interruptPending && !memStagePageFaultTaken s i &&
      !instrStagePageFaultTaken s i) = false
    rw [hf, Bool.not_true, Bool.and_false]
  have htaken : (exOut s i).interruptTaken = false :=
    (executionUnit_answer hp).interruptTaken
  have hf' := hf
  simp only [instrStagePageFaultTaken, Bool.and_eq_true] at hf'
  simp [counted, fetchFaultCounted, instretIncrement, hf, hf'.1.1.2, hf'.1.2, htaken]

/-- A CSR access is no `mret` or `sret`. -/
theorem xret_of_csrWriteEnable (h : csrWriteEnable s i = true) :
    (exOut s i).mretInstruction = false ∧ (exOut s i).sretInstruction = false := by
  have hid : s.idEx.dec.instrId ≠ .mret ∧ s.idEx.dec.instrId ≠ .sret := by
    constructor
    all_goals
      intro hid
      have hid : (exIn s i).instrId = _ := hid
      unfold csrWriteEnable ExecutionUnit.csrWriteEnable ExecutionUnit.csrExecInst csrExec at h
      rw [hid] at h
      exact Bool.false_ne_true h
  have hx : (exIn s i).instrId = s.idEx.dec.instrId := rfl
  rw [exOut, executionUnit_mret, executionUnit_sret]
  simp [ExecutionUnit.legalMret, ExecutionUnit.legalSret, hx, hid.1, hid.2]

/-- **A CSR instruction that leaves EX writes**, if the CSR exists. -/
theorem action_of_csrWrite (h : issues s i = true) (hw : csrWriteEnable s i = true)
    (hv : CsrFile.csrValid (csrAddr s) = true) :
    s.csrFile.action (csrIn s i) =
      .write (csrAddr s) (ExecutionUnit.csrWriteData (exIn s i)) := by
  obtain ⟨hm, hs⟩ := xret_of_csrWriteEnable hw
  rw [action_of_issues h, csrEffect, hm, hs, hw, hv]
  rfl

/-- `writes_minstret` holds the counter back only in the cycle the write is performed. -/
theorem writesMinstret_of_issues (h : issues s i = true)
    (hw : CsrFile.setsInstret (s.csrFile.action (csrIn s i)) = false) :
    CsrFile.writesMinstret (csrIn s i) = false := by
  by_contra hwm
  simp only [CsrFile.writesMinstret, Bool.not_eq_false, Bool.and_eq_true, Bool.or_eq_true,
    beq_iff_eq] at hwm
  obtain ⟨hwe, haddr⟩ := hwm
  have haddr : csrAddr s = 0xB02#12 ∨ csrAddr s = 0xB82#12 := haddr
  have hwe : (csrWriteEnable s i && exStageActive s i) = true := hwe
  rw [Bool.and_eq_true] at hwe
  have hvalid : CsrFile.csrValid (csrAddr s) = true := by
    rcases haddr with h | h <;> rw [h] <;> decide
  rw [action_of_csrWrite h hwe.1 hvalid] at hw
  rcases haddr with h | h <;> rw [h] at hw <;> exact Bool.false_ne_true hw.symm

/-- **What is counted**: an instruction that leaves EX without writing the counter, once, and a
fetch page fault in EX over a word that raises no other exception. -/
theorem counted_eq (hw : CsrFile.setsInstret (s.csrFile.action (csrIn s i)) = false) :
    (counted s i).toNat = (issues s i).toNat + (fetchFaultCounted s i).toNat := by
  cases hi : issues s i
  · cases hf : instrStagePageFaultTaken s i
    · simp [counted, fetchFaultCounted, hf, instretIncrement_of_not_issues hi hf]
    · rw [counted_of_fetchFault hf, Bool.toNat_false, Nat.zero_add]
  · have hf : instrStagePageFaultTaken s i = false := by
      simp only [issues, exMemFlush, Bool.and_eq_true, Bool.not_eq_true',
        Bool.or_eq_false_iff] at hi
      exact hi.2.1.1.2
    simp [counted, fetchFaultCounted, hf, instretIncrement_of_issues hi,
      writesMinstret_of_issues hi hw]

/-- An inert slot takes no page fault. -/
theorem memStagePageFaultTaken_of_inert (h : s.exMem.Inert) :
    memStagePageFaultTaken s i = false := by
  obtain ⟨hr, hw⟩ := memRequests_of_inert h
  have ha : isAmoW s = false := by
    have hl := h.load
    rw [isLoad_eq, Bool.or_eq_false_iff] at hl
    exact hl.2
  simp [memStagePageFaultTaken, memStageLoadPageFault, memStageStorePageFault, dataWriteIntent,
    hr, hw, ha]

end RiscvCpu

/-! ## Where the counted instructions go -/

open RiscvCpu

namespace Ledger

variable {s : RiscvCpu} {i : CpuIn} {l : Ledger}

/-- **The number of instructions that have retired**: they left MEM without a page fault. -/
def retired (l : Ledger) : ℕ := l.left.countP fun d => !d.faulted

/-- The instructions that have left EX and taken no page fault since. -/
def passed (l : Ledger) : ℕ := l.retired + l.inMem.toList.length

/-- **Step.** An instruction that leaves EX goes to MEM, and from there it retires or takes its page
fault. -/
theorem passed_next (hm : MemInv s l) :
    (l.next s i).passed + (memStagePageFaultTaken s i).toNat = l.passed + (issues s i).toNat := by
  cases hw : memWait s i
  · have hin : (l.next s i).inMem.toList.length = (issues s i).toNat := by
      rw [inMem_of_move hw]
      cases issues s i <;> rfl
    rw [passed, passed, hin, retired, retired, left_of_move hw, List.countP_append]
    cases he : l.inMem with
    | none =>
      rw [memStagePageFaultTaken_of_inert (hm.inert he)]
      simp
    | some e =>
      -- It retires unless its own page fault is taken in this cycle.
      cases hf : memStagePageFaultTaken s i <;> simp [depart, hf]; omega
  · have hf : memStagePageFaultTaken s i = false := by
      by_contra hf
      rw [memWait, Bool.eq_true_of_not_eq_false hf] at hw
      simp at hw
    have hi : issues s i = false := by
      rw [issues, exStageActive, hw]
      simp
    rw [passed, passed, retired, retired, left_of_wait hw, inMem_of_wait hw, hf, hi]
    cases l.inMem <;> rfl

end Ledger

namespace RiscvCpu

/-! ## Between two cycles with an empty pipeline -/

/-- **The pipeline is empty**: no instruction waits for decode, EX or MEM. -/
structure Drained (ins : ℕ → CpuIn) (n : ℕ) : Prop where
  fetched : (run ins n).ifId.instructionValid = false
  decoded : (run ins n).idEx.instrValid = false
  inMem : (ledger reset ins n).inMem = none

/-- Counting is on and software leaves the counter alone: `mcountinhibit.IR` is clear, and the cycle
performs no write of a half of the counter. -/
structure Counting (ins : ℕ → CpuIn) (n : ℕ) : Prop where
  enabled : (run ins n).csrFile.mcountinhibit.getLsbD 2 = false
  unwritten : CsrFile.setsInstret (actionAt ins n) = false

/-- The counted page faults of a cycle: an access in MEM, which was counted when it left EX, and a
fetch page fault in EX that is counted there. -/
def faultsCountedAt (ins : ℕ → CpuIn) (n : ℕ) : ℕ :=
  (memStagePageFaultTaken (run ins n) (ins n)).toNat + (fetchFaultCounted (run ins n) (ins n)).toNat

/-- **The counted page faults** of the cycles from `n` up to `m`. -/
def faultsCounted (ins : ℕ → CpuIn) (n m : ℕ) : ℕ := ∑ k ∈ Finset.Ico n m, faultsCountedAt ins k

/-- The counter after a cycle. -/
theorem instretCounter_succ {ins : ℕ → CpuIn} {n : ℕ} (h : Counting ins n) :
    (run ins (n + 1)).csrFile.instretCounter =
      (run ins n).csrFile.instretCounter +
        BitVec.ofNat 64 (counted (run ins n) (ins n)).toNat := by
  rw [run_csrFile_succ, CsrFile.instretCounter_perform _ h.unwritten]
  have htick : ((run ins n).csrFile.tick (csrIn (run ins n) (ins n))).instretCounter =
      if instretIncrement (run ins n) (ins n) && !(run ins n).csrFile.mcountinhibit.getLsbD 2 &&
          !CsrFile.writesMinstret (csrIn (run ins n) (ins n))
      then (run ins n).csrFile.instretCounter + 1
      else (run ins n).csrFile.instretCounter := rfl
  rw [htick, h.enabled, Bool.not_false, Bool.and_true]
  change (if counted (run ins n) (ins n) = true then _ else _) = _
  cases counted (run ins n) (ins n) <;> simp

/-- **Run.** The counter has gone up once for each instruction that has left EX and taken no page
fault since, and once for each counted page fault. -/
theorem instretCounter_run {ins : ℕ → CpuIn} {n m : ℕ} (hnm : n ≤ m)
    (h : ∀ k, n ≤ k → k < m → Counting ins k) :
    (run ins m).csrFile.instretCounter + BitVec.ofNat 64 (ledger reset ins n).passed =
      (run ins n).csrFile.instretCounter +
        BitVec.ofNat 64 ((ledger reset ins m).passed + faultsCounted ins n m) := by
  induction m, hnm using Nat.le_induction with
  | base => simp [faultsCounted]
  | succ m hnm ih =>
    have ih := ih fun k hnk hkm => h k hnk (by omega)
    have hstep := instretCounter_succ (h m hnm (Nat.lt_succ_self m))
    have hcount := counted_eq (h m hnm (Nat.lt_succ_self m)).unwritten
    have hpassed : (ledger reset ins (m + 1)).passed +
        (memStagePageFaultTaken (run ins m) (ins m)).toNat =
          (ledger reset ins m).passed + (issues (run ins m) (ins m)).toNat :=
      Ledger.passed_next (memInv_runFrom idle_reset m)
    have hfaults : faultsCounted ins n (m + 1) =
        faultsCounted ins n m + faultsCountedAt ins m := Finset.sum_Ico_succ_top hnm _
    have hsum : (ledger reset ins (m + 1)).passed + faultsCounted ins n (m + 1) =
        (ledger reset ins m).passed + faultsCounted ins n m +
          (counted (run ins m) (ins m)).toNat := by
      rw [hfaults, faultsCountedAt, hcount]
      omega
    rw [hsum, hstep, BitVec.ofNat_add _ (counted (run ins m) (ins m)).toNat, ← BitVec.add_assoc,
      ← ih]
    ac_rfl

/-- **`instret` counts the retired instructions exactly when it counts no page fault.** Between two
cycles with an empty pipeline, however long EX and MEM wait, the counter goes up by the number of
instructions that retired, if and only if the number of counted page faults is `0` modulo
`2 ^ 64`. -/
theorem run_instret_iff (ins : ℕ → CpuIn) {n m : ℕ} (hnm : n ≤ m)
    (hc : ∀ k, n ≤ k → k < m → Counting ins k) (hn : Drained ins n) (hm : Drained ins m) :
    (run ins m).csrFile.instretCounter =
        (run ins n).csrFile.instretCounter +
          BitVec.ofNat 64 ((ledger reset ins m).retired - (ledger reset ins n).retired) ↔
      2 ^ 64 ∣ faultsCounted ins n m := by
  have hrun := instretCounter_run hnm hc
  have hempty : ∀ {k}, Drained ins k →
      (ledger reset ins k).passed = (ledger reset ins k).retired := by
    intro k hk
    rw [Ledger.passed, hk.inMem]
    rfl
  have hle : (ledger reset ins n).retired ≤ (ledger reset ins m).retired :=
    (left_mono hnm).sublist.countP_le
  obtain ⟨d, hd⟩ := Nat.exists_eq_add_of_le hle
  rw [hempty hn, hempty hm, hd, Nat.add_assoc, BitVec.ofNat_add, BitVec.ofNat_add] at hrun
  rw [hd, Nat.add_sub_cancel_left]
  have hm' : (run ins m).csrFile.instretCounter =
      (run ins n).csrFile.instretCounter + BitVec.ofNat 64 d +
        BitVec.ofNat 64 (faultsCounted ins n m) := by
    apply (BitVec.add_left_inj (BitVec.ofNat 64 (ledger reset ins n).retired)).mp
    rw [hrun]
    ac_rfl
  rw [hm', BitVec.add_right_eq_self, ← BitVec.toNat_inj]
  simp [Nat.dvd_iff_mod_eq_zero]

/-- A load between two NOPs, answered in its fifth cycle in MEM, and then no more fetches. -/
def waitedLoad (n : ℕ) : CpuIn :=
  { quietFetch (if n = 1 then 0x00002183#32 else nopInstr) with
    instrRvalidIn := n < 3, dataRvalidIn := n == 7 }

/-- Three instructions retire and count three times, the waiting ones included. -/
theorem run_instret_waitedLoad :
    (run waitedLoad 9).csrFile.instretCounter =
        (run waitedLoad 0).csrFile.instretCounter +
          BitVec.ofNat 64 ((ledger reset waitedLoad 9).retired -
            (ledger reset waitedLoad 0).retired) ∧
      (ledger reset waitedLoad 9).retired = 3 := by
  have hc : ∀ k < 9, (run waitedLoad k).csrFile.mcountinhibit.getLsbD 2 = false ∧
      CsrFile.setsInstret (actionAt waitedLoad k) = false := by decide +kernel
  have hcounting : ∀ k, 0 ≤ k → k < 9 → Counting waitedLoad k :=
    fun k _ hk => ⟨(hc k hk).1, (hc k hk).2⟩
  have hstart : Drained waitedLoad 0 := ⟨rfl, rfl, rfl⟩
  have hend : Drained waitedLoad 9 :=
    ⟨by decide +kernel, by decide +kernel, Option.isNone_iff_eq_none.mp (by decide +kernel)⟩
  have hfaults : faultsCounted waitedLoad 0 9 = 0 := by decide +kernel
  refine ⟨(run_instret_iff waitedLoad (Nat.zero_le 9) hcounting hstart hend).mpr ?_,
    by decide +kernel⟩
  rw [hfaults]
  exact dvd_zero _

/-- **A load that page-faults is counted.** Four instructions retire before the load of
`mprvLoadFault` takes its page fault in MEM and the pipeline is empty again, and `instret` is
five. -/
theorem run_instret_loadFault :
    (∀ k < 12, (run (mprvLoadFault nopInstr) k).csrFile.mcountinhibit.getLsbD 2 = false ∧
        CsrFile.setsInstret (actionAt (mprvLoadFault nopInstr) k) = false) ∧
      Drained (mprvLoadFault nopInstr) 0 ∧ Drained (mprvLoadFault nopInstr) 12 ∧
      dataMmuEnable (run (mprvLoadFault nopInstr) 11) = true ∧
      (ledger reset (mprvLoadFault nopInstr) 12).retired = 4 ∧
      (run (mprvLoadFault nopInstr) 0).csrFile.instretCounter = 0#64 ∧
      (run (mprvLoadFault nopInstr) 12).csrFile.instretCounter = 5#64 :=
  ⟨by decide +kernel, ⟨rfl, rfl, rfl⟩,
    ⟨by decide +kernel, by decide +kernel, Option.isNone_iff_eq_none.mp (by decide +kernel)⟩,
    by decide +kernel, by decide +kernel, rfl, by decide +kernel⟩

end RiscvCpu

end Synapse32
