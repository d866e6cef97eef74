import Synapse32.Core.Alu
import Synapse32.Core.Privilege
import Synapse32.Data.Arbitration

/-! # The accesses of MEM

EX traps misaligned accesses, so that what MEM asks for is naturally aligned. -/

namespace Synapse32

namespace ExecutionUnit

variable {x : ExIn}

/-- The address of an instruction in MEM is one that its kind may have. -/
def Natural (id : InstrId) (a : Word) : Prop :=
  loadAddressMisaligned id a = false ∧ storeAddressMisaligned id a = false

/-- Address 0 is aligned for every kind. -/
theorem natural_zero (id : InstrId) : Natural id 0#32 := by
  cases id <;> exact ⟨rfl, rfl⟩

/-- An output without an exception leaves an address that the kind may have. -/
def KeepsNatural (x : ExIn) (o : ExOut) : Prop :=
  o.synchronous = false → Natural x.instrId o.memAddr

/-- An output without an address keeps alignment. -/
theorem keepsNatural_of_zero {o : ExOut} (h : o.memAddr = 0#32) : KeepsNatural x o := by
  intro _
  rw [h]
  exact natural_zero _

/-- An output with an exception keeps alignment: it accesses nothing. -/
theorem keepsNatural_of_synchronous {o : ExOut} (h : o.synchronous = true) : KeepsNatural x o := by
  intro hs
  exact absurd (hs.symm.trans h) Bool.false_ne_true

/-- A load that raises no exception is aligned. -/
theorem keepsNatural_executeLoad (hop : x.opcode = Decoder.majorOpcode x.instrId)
    (h : x.opcode = 0b0000011#7) : KeepsNatural x (executeLoad x) := by
  have hstore : ∀ a, storeAddressMisaligned x.instrId a = false := by
    intro a
    rw [hop] at h
    revert h
    cases x.instrId <;> first | exact fun _ => rfl | exact fun h => absurd h (by decide)
  unfold executeLoad
  dsimp only
  split
  · exact keepsNatural_of_synchronous (by simp [ExOut.synchronous, breakpointTrigger])
  · split
    · exact keepsNatural_of_synchronous (by simp [ExOut.synchronous, loadMisaligned])
    · rename_i hl
      exact fun _ => ⟨Bool.eq_false_of_not_eq_true hl, hstore _⟩

/-- A store that raises no exception is aligned. -/
theorem keepsNatural_executeStore (hop : x.opcode = Decoder.majorOpcode x.instrId)
    (h : x.opcode = 0b0100011#7) : KeepsNatural x (executeStore x) := by
  have hload : ∀ a, loadAddressMisaligned x.instrId a = false := by
    intro a
    rw [hop] at h
    revert h
    cases x.instrId <;> first | exact fun _ => rfl | exact fun h => absurd h (by decide)
  unfold executeStore
  dsimp only
  split
  · exact keepsNatural_of_synchronous (by simp [ExOut.synchronous, breakpointTrigger])
  · split
    · exact keepsNatural_of_synchronous (by simp [ExOut.synchronous, storeMisaligned])
    · rename_i hl
      exact fun _ => ⟨hload _, Bool.eq_false_of_not_eq_true hl⟩

/-- An atomic that raises no exception is aligned. -/
theorem keepsNatural_executeAtomic : KeepsNatural x (executeAtomic x) := by
  unfold executeAtomic
  dsimp only
  split
  · exact keepsNatural_of_synchronous (by simp [ExOut.synchronous, breakpointTrigger])
  · split
    · exact keepsNatural_of_synchronous (by simp [ExOut.synchronous, loadMisaligned])
    · rename_i hl
      split
      · exact keepsNatural_of_synchronous (by simp [ExOut.synchronous, storeMisaligned])
      · rename_i hs
        exact fun _ => ⟨Bool.eq_false_of_not_eq_true hl, Bool.eq_false_of_not_eq_true hs⟩

/-- A jump leaves no address. -/
theorem jumpTo_memAddr (v target : Word) :
    (jumpTo x { execOutput := v } target).memAddr = 0#32 := by
  unfold jumpTo
  split <;> rfl

/-- A branch leaves no address. -/
theorem executeBranch_memAddr : (executeBranch x).memAddr = 0#32 := by
  unfold executeBranch
  split
  · exact jumpTo_memAddr _ _
  · rfl

/-- A system instruction leaves no address. -/
theorem executeSystem_memAddr : (executeSystem x).memAddr = 0#32 := by
  have hcsr : (executeCsr x).memAddr = 0#32 := by
    unfold executeCsr
    split
    · rfl
    · split <;> rfl
  unfold executeSystem
  split
  case h_7 => exact hcsr
  all_goals first | rfl | (split <;> rfl)

/-- **What EX hands on without an exception is naturally aligned.** -/
theorem keepsNatural_executionUnit (ha : x.stageEnable = true) (hp : x.interruptPending = false)
    (hop : x.instrId ≠ .invalid → x.opcode = Decoder.majorOpcode x.instrId) :
    KeepsNatural x (executionUnit x) := by
  -- The gate and the trace port change nothing of what an active EX puts out.
  have hungated : KeepsNatural x (ungated x) := by
    unfold ungated
    rw [hp, if_neg Bool.false_ne_true]
    split
    · exact keepsNatural_of_zero rfl
    · split
      · exact keepsNatural_of_zero rfl
      · by_cases hid : x.instrId = .invalid
        · -- An invalid instruction accesses nothing.
          exact fun _ => by rw [hid]; exact ⟨rfl, rfl⟩
        · exact executeOpcode_cases x (fun _ => keepsNatural_of_zero rfl)
            (keepsNatural_executeLoad (hop hid)) (keepsNatural_executeStore (hop hid))
            (fun _ => keepsNatural_executeAtomic)
            (fun _ => keepsNatural_of_zero executeBranch_memAddr)
            (fun _ => keepsNatural_of_zero (jumpTo_memAddr _ _))
            (fun _ => keepsNatural_of_zero (jumpTo_memAddr _ _))
            (fun _ => keepsNatural_of_zero rfl) (fun _ => keepsNatural_of_zero rfl)
            (fun _ => keepsNatural_of_zero executeSystem_memAddr)
            (fun _ _ => keepsNatural_of_zero rfl) (keepsNatural_of_zero rfl)
  have hreport : ∀ (w : Word) (o : ExOut), (reportInstr w o).memAddr = o.memAddr := by
    intro w o
    unfold reportInstr
    split <;> rfl
  intro hs
  rw [executionUnit, reportInstr_synchronous, ha] at hs
  rw [executionUnit, hreport, ha]
  exact hungated hs

end ExecutionUnit

namespace RiscvCpu

open ExecutionUnit

variable {s : RiscvCpu} {i : CpuIn}

/-- An instruction that leaves EX takes no exception and no interrupt. -/
theorem quiet_of_issues (h : issues s i = true) :
    s.idEx.instrValid = true ∧ exStageActive s i = true ∧ (exOut s i).synchronous = false ∧
      interruptTakenQualified s i = false ∧ memStagePageFaultTaken s i = false ∧
      instrStagePageFaultTaken s i = false := by
  simp only [issues, exMemFlush, Bool.and_eq_true, Bool.not_eq_true', Bool.or_eq_false_iff] at h
  obtain ⟨⟨hv, ha⟩, ⟨⟨hm, hf⟩, hs⟩, hi⟩ := h
  exact ⟨hv, ha, hs, hi, hm, hf⟩

/-- The slot in MEM is naturally aligned. -/
def MemNatural (s : RiscvCpu) : Prop := Natural s.exMem.instrId s.exMem.memAddr

/-- What accesses nothing is aligned. -/
theorem natural_of_inert {e : ExMem} (h : e.Inert) : Natural e.instrId e.memAddr := by
  have hload := h.load
  have hstore := h.store
  have hsc := h.sc
  revert hload hstore hsc
  cases e.instrId <;> first
    | exact fun _ _ _ => ⟨rfl, rfl⟩
    | exact fun h _ _ => absurd h (by decide)
    | exact fun _ h _ => absurd h (by decide)
    | exact fun _ _ h => absurd h (by decide)

/-- **Step.** -/
theorem MemNatural.next {l : Ledger} (h : MemNatural s) (hf : FrontInv s l.programPc) :
    MemNatural (next s i) := by
  rcases mem_cases (i := i) hf with ⟨-, -, hx⟩ | ⟨-, hi, hx⟩ | ⟨-, -, hx⟩
  · rw [MemNatural, hx]
    exact h
  · rw [MemNatural, hx]
    obtain ⟨hv, ha, hs, hint, -, -⟩ := quiet_of_issues hi
    refine keepsNatural_executionUnit (x := exIn s i) ha (interruptPending_of_not_taken ha hint)
      ?_ hs
    intro hid
    change s.idEx.dec.opcode = Decoder.majorOpcode s.idEx.dec.instrId
    have hid : s.idEx.dec.instrId ≠ .invalid := hid
    rw [hf.exDec hv] at hid ⊢
    exact Decoder.opcode_eq_majorOpcode hid
  · rw [MemNatural]
    exact natural_of_inert hx

/-- **MEM is naturally aligned** in every run. -/
theorem memNatural_run (ins : ℕ → CpuIn) (n : ℕ) : MemNatural (run ins n) := by
  induction n with
  | zero => exact ⟨rfl, rfl⟩
  | succ n ih => exact ih.next (frontInv_runFrom idle_reset n)

/-- A word access with clear low bits is aligned. -/
theorem wordAligned_of_low {a : Word} (h : (a.extractLsb' 0 2 != 0#2) = false) :
    a.toNat % 4 = 0 := by
  rw [low_two, decide_eq_false_iff_not, not_not] at h
  exact h

/-- A halfword access with a clear low bit is aligned. -/
theorem halfAligned_of_low {a : Word} (h : a.getLsbD 0 = false) : a.toNat % 2 = 0 := by
  rw [low_one, decide_eq_false_iff_not, not_not] at h
  exact h

/-- A load of MEM is aligned. -/
theorem MemNatural.alignedLoad (h : MemNatural s) (hr : memRdEn s = true) :
    AlignedLoad s.exMem.memAddr (loadType s) := by
  obtain ⟨hl, hs⟩ := h
  rw [memRdEn, Bool.or_eq_true, Bool.and_eq_true] at hr
  -- LR and AMO read words, at addresses that EX has checked for words.
  have hatomic : isLrW s = true ∨ isAmoW s = true → AlignedLoad s.exMem.memAddr (loadType s) := by
    intro ha
    have ht : loadType s = 0b010#3 := by
      rw [loadType, if_pos (by simpa using ha)]
    refine .inr (.inr (.inr ⟨ht, wordAligned_of_low ?_⟩))
    rcases ha with ha | ha
    · rw [beq_iff_eq.mp ha] at hl
      exact hl
    · revert hs ha
      rw [isAmoW]
      cases s.exMem.instrId <;> first
        | exact fun h _ => h
        | exact fun _ h => absurd h Bool.false_ne_true
  by_cases ha : isLrW s = true ∨ isAmoW s = true
  · exact hatomic ha
  · -- What is left reads by its own load type.
    have hplain : s.exMem.instrId.isPlainLoad = true := by
      refine hr.resolve_right fun h => ha ?_
      rw [atomicReadEnable, Bool.or_eq_true] at h
      exact h.1
    have ht : loadType s = MemoryUnit.loadType s.exMem.instrId := by
      rw [loadType, if_neg (by simpa using ha)]
    rw [ht]
    revert hl hplain
    cases s.exMem.instrId
    case lb => exact fun _ _ => .inl rfl
    case lbu => exact fun _ _ => .inr (.inl rfl)
    case lh => exact fun h _ => .inr (.inr (.inl ⟨.inl rfl, halfAligned_of_low h⟩))
    case lhu => exact fun h _ => .inr (.inr (.inl ⟨.inr rfl, halfAligned_of_low h⟩))
    case lw => exact fun h _ => .inr (.inr (.inr ⟨rfl, wordAligned_of_low h⟩))
    all_goals exact fun _ h => absurd h Bool.false_ne_true

/-- A write of MEM is aligned. -/
theorem MemNatural.alignedStore (h : MemNatural s) (hw : memWrEn s = true) :
    AlignedStore s.exMem.memAddr (writeByteEnable s) := by
  obtain ⟨-, hs⟩ := h
  rw [memWrEn, Bool.or_eq_true, Bool.and_eq_true] at hw
  rw [writeByteEnable]
  cases hat : atomicWriteEnable s
  · -- A plain store enables bytes only at addresses that fit its size.
    rw [hat] at hw
    have hstd := hw.resolve_left fun h => Bool.false_ne_true h.1
    rw [exMemStdStoreReq, Bool.and_eq_true, bne_iff_ne] at hstd
    obtain ⟨hplain, hbe⟩ := hstd
    rw [if_neg Bool.false_ne_true]
    revert hplain hbe hs
    rw [exMemStoreBe]
    cases s.exMem.instrId
    case sb => exact fun _ _ _ => .inl rfl
    case sh =>
      intro h _ _
      have hz : s.exMem.memAddr.getLsbD 0 = false := h
      refine .inr (.inl ⟨?_, halfAligned_of_low hz⟩)
      change (if s.exMem.memAddr.getLsbD 0 then 0b0000#4 else 0b0011#4) = 0b0011#4
      rw [hz]
      rfl
    case sw =>
      intro h _ _
      have hz : (s.exMem.memAddr.extractLsb' 0 2 != 0#2) = false := h
      refine .inr (.inr ⟨?_, wordAligned_of_low hz⟩)
      change (if s.exMem.memAddr.extractLsb' 0 2 = 0#2 then 0b1111#4 else 0b0000#4) = 0b1111#4
      exact if_pos (by simpa using hz)
    all_goals exact fun _ h => absurd h Bool.false_ne_true
  · -- SC and AMO write words.
    refine .inr (.inr ⟨rfl, wordAligned_of_low ?_⟩)
    rw [atomicWriteEnable, Bool.or_eq_true, Bool.and_eq_true] at hat
    have hid : isScW s = true ∨ isAmoW s = true := hat.imp_left And.left
    revert hid hs
    rw [isScW, isAmoW]
    cases s.exMem.instrId <;> first
      | exact fun h _ => h
      | exact fun _ h => absurd h (by decide)

end RiscvCpu

end Synapse32
