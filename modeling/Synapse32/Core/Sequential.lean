import Synapse32.Core.Alu
import Synapse32.Core.Ledger

/-! # One instruction through EX and MEM

What EX and MEM make of one instruction of the set, given its operands: EX computes the slot of MEM
and the next PC, and the slot's accesses, result and reservation are those of the instruction. -/

namespace Synapse32

open ExecutionUnit

/-! ## The slot of an instruction -/

namespace Instr

variable (i : Instr) (h : Hart)

/-- The second operand as the core carries it: zero where there is none. -/
def operand2 : Word := if i.decoded.rs2Valid then h.regs i.decoded.rs2 else 0#32

/-- The address of an access. -/
def memAddr : Word :=
  match i with
  | .load _ _ rs1 imm | .store _ rs1 _ imm => h.regs rs1 + imm.signExtend 32
  | .lr _ _ rs1 | .sc _ _ rs1 _ | .amo _ _ _ rs1 _ => h.regs rs1
  | _ => 0#32

/-- The result EX computes. -/
def execOutput : Word :=
  match i with
  | .op o _ rs1 rs2 => o.eval (h.regs rs1) (h.regs rs2)
  | .opImm o _ rs1 imm => o.eval (h.regs rs1) (imm.signExtend 32)
  | .shift o _ rs1 shamt => o.eval (h.regs rs1) shamt.toNat
  | .jal _ _ | .jalr _ _ _ => h.pc + 4#32
  | .lui _ imm => imm ++ 0#12
  | .auipc _ imm => h.pc + (imm ++ 0#12)
  | _ => 0#32

/-- **The slot of MEM** that EX makes of an instruction. -/
def slot : ExMem where
  rdAddr := i.decoded.rd
  rs2Value := i.operand2 h
  pc := h.pc
  memAddr := i.memAddr h
  execOutput := i.execOutput h
  instrId := i.decoded.instrId
  rdValid := i.decoded.rdValid

end Instr

/-! ## EX -/

/-- EX holds instruction `i` with the operands that hart `h` gives it, free to execute. -/
structure Carries (x : ExIn) (i : Instr) (h : Hart) : Prop where
  rs1 : i.decoded.rs1Valid = true → rs1Value x = h.regs i.decoded.rs1
  rs2 : rs2Value x = i.operand2 h
  imm : x.imm = i.decoded.imm
  opcode : x.opcode = i.decoded.opcode
  instrId : x.instrId = i.decoded.instrId
  pc : x.pcInput = h.pc
  enabled : x.stageEnable = true
  noInterrupt : x.interruptPending = false
  noTrigger : ∀ t, x.triggerEnabled t = false

/-- What EX asks for when an instruction does not trap: its result, its address, and the next PC. -/
structure Executes (i : Instr) (h : Hart) (o : Outcome) (out : ExOut) : Prop where
  execOutput : out.execOutput = i.execOutput h
  memAddr : out.memAddr = i.memAddr h
  synchronous : out.synchronous = false
  system : out.system = (false, false, false)
  next : (if out.jumpSignal then out.jumpAddr else h.pc + 4#32) = o.pc

namespace Carries

variable {x : ExIn} {i : Instr} {h : Hart} {o : Outcome}

/-- Without triggers none matches. -/
theorem triggerMatch_eq (hc : Carries x i h) (kind : ℕ) (a : Word) :
    triggerMatch x kind a = false := by
  simp [triggerMatch, hc.noTrigger]

/-- No instruction of the set is undecodable. -/
theorem id_ne_invalid (i : Instr) : i.decoded.instrId ≠ .invalid := by
  cases i
  case op o _ _ _ => cases o <;> exact InstrId.noConfusion
  case opImm o _ _ _ => cases o <;> exact InstrId.noConfusion
  case shift o _ _ _ => cases o <;> exact InstrId.noConfusion
  case load o _ _ _ => cases o <;> exact InstrId.noConfusion
  case store o _ _ _ => cases o <;> exact InstrId.noConfusion
  case branch o _ _ _ => cases o <;> exact InstrId.noConfusion
  case amo o _ _ _ _ => cases o <;> exact InstrId.noConfusion
  case fence bits rd rs1 =>
    change (if _ then InstrId.pause else InstrId.fence) ≠ _
    split <;> exact InstrId.noConfusion
  all_goals exact InstrId.noConfusion

/-- EX gets to the opcode. -/
theorem executionUnit_eq (hc : Carries x i h) :
    executionUnit x = reportInstr x.instr (executeOpcode x) := by
  have hid : x.instrId ≠ .invalid := hc.instrId ▸ id_ne_invalid i
  have htrig : executeTriggerHit x = false := by
    rw [executeTriggerHit, hc.triggerMatch_eq, Bool.and_false]
  unfold executionUnit ungated gate
  rw [hc.noInterrupt, htrig, hc.enabled]
  simp [hid]

/-- An output without an illegal-instruction trap is reported as it is. -/
theorem reportInstr_eq {w : Word} {out : ExOut} (h : out.illegalInstructionException = false) :
    reportInstr w out = out := by
  rw [reportInstr, h]
  rfl

/-- An aligned jump executes. -/
theorem executes_jumpTo {v target : Word} {rd : BitVec 5} {value : Word}
    (he : jumpOutcome h target rd value = some o) (hv : v = i.execOutput h)
    (hm : i.memAddr h = 0#32) :
    Executes i h o (jumpTo x { execOutput := v } target) := by
  unfold jumpOutcome at he
  split at he
  · rename_i hal
    obtain rfl := Option.some.inj he
    have hlow : (target.extractLsb' 0 2 != 0#2) = false := by
      rw [low_two]
      exact decide_eq_false (not_not_intro hal)
    rw [jumpTo, hlow]
    exact ⟨hv, hm.symm, rfl, rfl, rfl⟩
  · exact absurd he.symm (Option.some_ne_none _)

/-- EX adds the immediate to the base register. -/
theorem rs1_add_imm (hc : Carries x i h) (hv : i.decoded.rs1Valid = true) :
    rs1Value x + x.imm = h.regs i.decoded.rs1 + i.decoded.imm := by
  rw [hc.rs1 hv, hc.imm]

/-- An aligned load executes. -/
theorem executes_load {op : LoadOp} {rd rs1 : BitVec 5} {imm : BitVec 12}
    (hc : Carries x (.load op rd rs1 imm) h) (he : (Instr.load op rd rs1 imm).exec h = some o) :
    Executes (.load op rd rs1 imm) h o (executeLoad x) := by
  have haddr : rs1Value x + x.imm = h.regs rs1 + imm.signExtend 32 := hc.rs1_add_imm rfl
  have hid : x.instrId = op.id := hc.instrId
  change (if (h.regs rs1 + imm.signExtend 32).toNat % op.size = 0 then _ else none) = _ at he
  split at he
  · rename_i hal
    obtain rfl := Option.some.inj he
    have hmis : loadAddressMisaligned x.instrId (rs1Value x + x.imm) = false := by
      rw [hid, haddr]
      cases op
      case lw => exact (low_two _).trans (decide_eq_false (not_not_intro hal))
      case lh => exact (low_one _).trans (decide_eq_false (not_not_intro hal))
      case lhu => exact (low_one _).trans (decide_eq_false (not_not_intro hal))
      all_goals rfl
    simp only [executeLoad, hc.triggerMatch_eq, hmis, Bool.false_eq_true, if_false]
    exact ⟨rfl, haddr, rfl, rfl, rfl⟩
  · exact absurd he.symm (Option.some_ne_none _)

/-- An aligned store executes. -/
theorem executes_store {op : StoreOp} {rs1 rs2 : BitVec 5} {imm : BitVec 12}
    (hc : Carries x (.store op rs1 rs2 imm) h)
    (he : (Instr.store op rs1 rs2 imm).exec h = some o) :
    Executes (.store op rs1 rs2 imm) h o (executeStore x) := by
  have haddr : rs1Value x + x.imm = h.regs rs1 + imm.signExtend 32 := hc.rs1_add_imm rfl
  have hid : x.instrId = op.id := hc.instrId
  change (if (h.regs rs1 + imm.signExtend 32).toNat % op.size = 0 then _ else none) = _ at he
  split at he
  · rename_i hal
    obtain rfl := Option.some.inj he
    have hmis : storeAddressMisaligned x.instrId (rs1Value x + x.imm) = false := by
      rw [hid, haddr]
      cases op
      case sw => exact (low_two _).trans (decide_eq_false (not_not_intro hal))
      case sh => exact (low_one _).trans (decide_eq_false (not_not_intro hal))
      case sb => rfl
    simp only [executeStore, hc.triggerMatch_eq, hmis, Bool.false_eq_true, if_false]
    exact ⟨rfl, haddr, rfl, rfl, rfl⟩
  · exact absurd he.symm (Option.some_ne_none _)

/-- A word-aligned LR, SC or AMO executes. -/
theorem executes_atomic (hc : Carries x i h) (ha : (h.regs i.decoded.rs1).toNat % 4 = 0)
    (hv : i.decoded.rs1Valid = true) (hm : i.memAddr h = h.regs i.decoded.rs1)
    (hx : i.execOutput h = 0#32) (hn : o.pc = h.pc + 4#32) :
    Executes i h o (executeAtomic x) := by
  have hlow : ((h.regs i.decoded.rs1).extractLsb' 0 2 != 0#2) = false :=
    (low_two _).trans (decide_eq_false (not_not_intro ha))
  have hodd : (h.regs i.decoded.rs1).getLsbD 0 = false :=
    (low_one _).trans (decide_eq_false (by omega))
  have haddr : rs1Value x = h.regs i.decoded.rs1 := hc.rs1 hv
  have hload : loadAddressMisaligned x.instrId (rs1Value x) = false := by
    rw [haddr]
    cases x.instrId <;> first | exact hlow | exact hodd | rfl
  have hstore : storeAddressMisaligned x.instrId (rs1Value x) = false := by
    rw [haddr]
    cases x.instrId <;> first | exact hlow | exact hodd | rfl
  have htrig : atomicTriggerHit x = false := by
    rw [atomicTriggerHit, loadTriggerHit, storeTriggerHit, hc.triggerMatch_eq,
      hc.triggerMatch_eq, Bool.and_false, Bool.and_false]
    rfl
  simp only [executeAtomic, htrig, hload, hstore, Bool.false_eq_true, if_false]
  exact ⟨hx.symm, haddr.trans hm.symm, rfl, rfl, hn.symm⟩

/-- **EX executes the instruction set.** -/
theorem executes (hc : Carries x i h) (he : i.exec h = some o) :
    Executes i h o (executionUnit x) := by
  -- What executes reports no illegal instruction, so the report adds nothing.
  have hreport : ∀ {out : ExOut}, executeOpcode x = out → Executes i h o out →
      Executes i h o (executionUnit x) := by
    intro out ho hex
    have hill : out.illegalInstructionException = false := by
      have := hex.synchronous
      simp only [ExOut.synchronous, Bool.or_eq_false_iff] at this
      exact this.1.1.1.2
    rw [hc.executionUnit_eq, ho, reportInstr_eq hill]
    exact hex
  have hpc := hc.pc
  have h1 := hc.rs1
  have h2 := hc.rs2
  have him := hc.imm
  have hid := hc.instrId
  cases i with
  | op op rd rs1 rs2 =>
    obtain rfl := Option.some.inj he
    have hop : x.opcode = 0b0110011#7 := hc.opcode
    refine hreport (if_pos (.inl hop)) ?_
    rw [h1 rfl, h2, hid]
    exact ⟨alu_op op _ _ _, rfl, rfl, rfl, rfl⟩
  | opImm op rd rs1 imm =>
    obtain rfl := Option.some.inj he
    have hop : x.opcode = 0b0010011#7 := hc.opcode
    refine hreport (if_pos (.inr hop)) ?_
    rw [h1 rfl, h2, hid, him]
    exact ⟨alu_opImm op _ _ _, rfl, rfl, rfl, rfl⟩
  | shift op rd rs1 shamt =>
    obtain rfl := Option.some.inj he
    have hop : x.opcode = 0b0010011#7 := hc.opcode
    refine hreport (if_pos (.inr hop)) ?_
    rw [h1 rfl, h2, hid, him]
    exact ⟨alu_shift op _ _ _, rfl, rfl, rfl, rfl⟩
  | load op rd rs1 imm =>
    have hop : x.opcode = 0b0000011#7 := hc.opcode
    exact hreport (by rw [executeOpcode, hop]; rfl) (hc.executes_load he)
  | store op rs1 rs2 imm =>
    have hop : x.opcode = 0b0100011#7 := hc.opcode
    exact hreport (by rw [executeOpcode, hop]; rfl) (hc.executes_store he)
  | branch op rs1 rs2 off =>
    have hop : x.opcode = 0b1100011#7 := hc.opcode
    refine hreport (by rw [executeOpcode, hop]) ?_
    have hid : x.instrId = op.id := hid
    have h2 : rs2Value x = h.regs rs2 := h2
    rw [executeBranch, h1 rfl, h2, hid, branchTaken_eq, hpc, him]
    change (if op.taken (h.regs rs1) (h.regs rs2) then _ else _) = _ at he
    change Executes _ h o (if op.taken (h.regs rs1) (h.regs rs2) then _ else _)
    split at he
    · rename_i ht
      rw [if_pos ht]
      exact executes_jumpTo he rfl rfl
    · rename_i ht
      rw [if_neg ht]
      obtain rfl := Option.some.inj he
      exact ⟨rfl, rfl, rfl, rfl, rfl⟩
  | jal rd off =>
    have hop : x.opcode = 0b1101111#7 := hc.opcode
    refine hreport (by rw [executeOpcode, hop]) ?_
    rw [hpc, him]
    exact executes_jumpTo he rfl rfl
  | jalr rd rs1 imm =>
    have hop : x.opcode = 0b1100111#7 := hc.opcode
    refine hreport (by rw [executeOpcode, hop]) ?_
    rw [hpc, him, h1 rfl]
    exact executes_jumpTo he rfl rfl
  | lui rd imm =>
    obtain rfl := Option.some.inj he
    have hop : x.opcode = 0b0110111#7 := hc.opcode
    refine hreport (by rw [executeOpcode, hop]) ?_
    rw [him]
    exact ⟨rfl, rfl, rfl, rfl, rfl⟩
  | auipc rd imm =>
    obtain rfl := Option.some.inj he
    have hop : x.opcode = 0b0010111#7 := hc.opcode
    refine hreport (by rw [executeOpcode, hop]) ?_
    rw [him, hpc]
    exact ⟨rfl, rfl, rfl, rfl, rfl⟩
  | lr aqrl rd rs1 =>
    have hop : x.opcode = 0b0101111#7 := hc.opcode
    refine hreport (by rw [executeOpcode, hop]) ?_
    change (if (h.regs rs1).toNat % 4 = 0 then _ else none) = _ at he
    split at he
    · rename_i hal
      obtain rfl := Option.some.inj he
      exact hc.executes_atomic hal rfl rfl rfl rfl
    · exact absurd he.symm (Option.some_ne_none _)
  | sc aqrl rd rs1 rs2 =>
    have hop : x.opcode = 0b0101111#7 := hc.opcode
    refine hreport (by rw [executeOpcode, hop]) ?_
    change (if (h.regs rs1).toNat % 4 = 0 then if _ then _ else _ else none) = _ at he
    split at he
    · rename_i hal
      refine hc.executes_atomic hal rfl rfl rfl ?_
      split at he <;> obtain rfl := Option.some.inj he <;> rfl
    · exact absurd he.symm (Option.some_ne_none _)
  | amo op aqrl rd rs1 rs2 =>
    have hop : x.opcode = 0b0101111#7 := hc.opcode
    refine hreport (by rw [executeOpcode, hop]) ?_
    change (if (h.regs rs1).toNat % 4 = 0 then _ else none) = _ at he
    split at he
    · rename_i hal
      obtain rfl := Option.some.inj he
      exact hc.executes_atomic hal rfl rfl rfl rfl
    · exact absurd he.symm (Option.some_ne_none _)
  | fence bits rd rs1 =>
    obtain rfl := Option.some.inj he
    have hop : x.opcode = 0b0001111#7 := hc.opcode
    have hnot : x.instrId ≠ .fenceI := by
      rw [hid]
      change (if _ then InstrId.pause else InstrId.fence) ≠ _
      split <;> exact InstrId.noConfusion
    have hout : executeOpcode x = {} := by
      rw [executeOpcode, hop]
      exact if_neg hnot
    exact hreport hout ⟨rfl, rfl, rfl, rfl, rfl⟩

end Carries

/-! ## MEM -/

/-- The reservation that the registers of `atomic_lsu.v` hold. -/
def AtomicLsu.reserved (a : AtomicLsu) : Option Word := if a.lrValid then some a.lrAddr else none

/-- Two addresses with the same upper bits are in the same word. -/
theorem sameWord_iff (a b : Word) :
    (a.extractLsb' 2 30 == b.extractLsb' 2 30) = decide (a.toNat / 4 = b.toNat / 4) := by
  have h : ∀ w : Word, (w.extractLsb' 2 30).toNat = w.toNat / 4 := by
    intro w
    rw [BitVec.extractLsb'_toNat, Nat.shiftRight_eq_div_pow]
    have := w.isLt
    omega
  have hiff : a.extractLsb' 2 30 = b.extractLsb' 2 30 ↔ a.toNat / 4 = b.toNat / 4 := by
    rw [← h a, ← h b]
    exact ⟨congrArg BitVec.toNat, BitVec.eq_of_toNat_eq⟩
  rw [Bool.eq_iff_iff, beq_iff_eq, decide_eq_true_eq]
  exact hiff

namespace Instr

variable {i : Instr} {h : Hart} {o : Outcome} {sc : Bool} {v : Word} {a : AtomicLsu}

/-- What a slot needs from outside: the memory's value for a load, and for an SC whether its
reservation stands. -/
structure Answers (i : Instr) (h : Hart) (sc : Bool) (v : Word) : Prop where
  value : i.decoded.instrId.isLoad = true →
    v = loadValue h.mem (i.memAddr h).toNat (i.slot h).readType
  success : (i.decoded.instrId == .scW) = true → sc = decide (h.reserved = some (i.memAddr h))

/-- **The slot of an instruction does what the instruction does**: its accesses, its register
write, and the reservation it leaves. -/
structure Agrees (i : Instr) (h : Hart) (o : Outcome) (sc : Bool) (v : Word) : Prop where
  accesses : (i.slot h).accesses sc v = o.accesses
  writes : (if (i.slot h).rdValid && (i.slot h).rdAddr != 0#5 then
    [((i.slot h).rdAddr, (i.slot h).result sc v)] else []) = o.writes
  reserved : ∀ a : AtomicLsu, a.reserved = h.reserved →
    (a.next (i.slot h).instrId (i.slot h).memAddr false (i.slot h).stdStore
      (i.slot h).memAddr).reserved = o.reserved

/-- An instruction that reaches only a register. -/
theorem agrees_register (hl : i.decoded.instrId.isLoad = false)
    (hs : i.decoded.instrId.isPlainStore = false) (hc : (i.decoded.instrId == .scW) = false)
    (hacc : o.accesses = []) (hres : o.reserved = h.reserved)
    (hw : o.writes = if i.decoded.rdValid && i.decoded.rd != 0#5 then
      [(i.decoded.rd, i.execOutput h)] else []) : Agrees i h o sc v := by
  -- Of the instructions that the slot tells apart, this is none.
  have hamo : i.decoded.instrId.isAmo = false := by
    rw [InstrId.isLoad, Bool.or_eq_false_iff] at hl
    exact hl.2
  have hlr : (i.decoded.instrId == .lrW) = false := by
    rw [InstrId.isLoad, Bool.or_eq_false_iff, Bool.or_eq_false_iff] at hl
    exact hl.1.2
  have hstd : (i.slot h).stdStore = false := by
    change (i.decoded.instrId.isPlainStore && _) = false
    rw [hs, Bool.false_and]
  constructor
  · rw [hacc, ExMem.accesses, hstd]
    change (if i.decoded.instrId.isLoad then _ else _) ++ (if i.decoded.instrId.isAmo then _
      else if i.decoded.instrId == InstrId.scW && sc then _ else _) = _
    rw [hl, hamo, hc]
    rfl
  · rw [hw, ExMem.result]
    change (if _ then [(_, if i.decoded.instrId.isLoad then _ else
      if i.decoded.instrId == InstrId.scW then _ else _)] else _) = _
    rw [hl, hc]
    rfl
  · intro a ha
    rw [hres, ← ha, hstd]
    unfold AtomicLsu.next
    change (if false = true then _ else if i.decoded.instrId == .lrW && _ then _
      else if i.decoded.instrId == .scW || i.decoded.instrId.isAmo || _ then _ else a).reserved = _
    rw [hlr, hc, hamo]
    rfl

/-- Write-back of an outcome's register. -/
theorem writes_eq (o : Outcome) : o.writes =
    if (true && o.rd != 0#5) = true then [(o.rd, o.value)] else [] := by
  unfold Outcome.writes
  by_cases hz : o.rd = 0#5 <;> simp [hz]

/-- A jump reaches only a register. -/
theorem agrees_jump {target : Word} {rd : BitVec 5} {value : Word}
    (he : jumpOutcome h target rd value = some o) (hl : i.decoded.instrId.isLoad = false)
    (hs : i.decoded.instrId.isPlainStore = false) (hc : (i.decoded.instrId == .scW) = false)
    (hw : ∀ p, (⟨p, rd, value, [], h.reserved⟩ : Outcome).writes =
      if i.decoded.rdValid && i.decoded.rd != 0#5 then
        [(i.decoded.rd, i.execOutput h)] else []) : Agrees i h o sc v := by
  unfold jumpOutcome at he
  split at he
  · obtain rfl := Option.some.inj he
    exact agrees_register hl hs hc rfl rfl (hw target)
  · exact absurd he.symm (Option.some_ne_none _)

/-- A load or LR reads its address, and an LR reserves it. -/
theorem agrees_load {rd : BitVec 5} {next : Word} {kind : BitVec 3} {res : Option Word}
    (ho : o = ⟨next, rd, v, [.read (i.memAddr h) kind v], res⟩)
    (hl : i.decoded.instrId.isLoad = true) (hamo : i.decoded.instrId.isAmo = false)
    (hrd : i.decoded.rd = rd) (hrv : i.decoded.rdValid = true)
    (hk : (i.slot h).readType = kind)
    (hres : ∀ a : AtomicLsu, a.reserved = h.reserved →
      (a.next i.decoded.instrId (i.memAddr h) false false (i.memAddr h)).reserved = res) :
    Agrees i h o sc v := by
  obtain ⟨hst, hsc⟩ := InstrId.not_store_of_isLoad hl
  have hstd : (i.slot h).stdStore = false := by
    change (i.decoded.instrId.isPlainStore && _) = false
    rw [hst, Bool.false_and]
  subst ho
  constructor
  · rw [ExMem.accesses, hstd, hk]
    change (if i.decoded.instrId.isLoad then _ else _) ++ (if i.decoded.instrId.isAmo then _
      else if i.decoded.instrId == InstrId.scW && sc then _ else _) = _
    rw [hl, hamo, hsc]
    rfl
  · rw [writes_eq, ExMem.result]
    change (if i.decoded.rdValid && i.decoded.rd != 0#5 then
      [(i.decoded.rd, if i.decoded.instrId.isLoad then _ else _)] else _) = _
    rw [hl, hrd, hrv]
    rfl
  · intro a ha
    rw [hstd]
    exact hres a ha

/-- An instruction other than LR, SC, the AMOs and the stores leaves the reservation. -/
theorem next_reserved_of_other {id : InstrId} (hlr : (id == .lrW) = false)
    (hsc : (id == .scW) = false) (hamo : id.isAmo = false) (m m' : Word) :
    a.next id m false false m' = a := by
  unfold AtomicLsu.next
  rw [hlr, hsc, hamo]
  rfl

/-- An SC or AMO breaks the reservation. -/
theorem next_reserved_of_break {id : InstrId} (hlr : (id == .lrW) = false)
    (hb : (id == .scW || id.isAmo) = true) (std : Bool) (m m' : Word) :
    (a.next id m false std m').reserved = none := by
  unfold AtomicLsu.next
  rw [hlr, hb]
  rfl

/-- A store breaks the reservation of its word. -/
theorem next_reserved_of_store {id : InstrId} (hlr : (id == .lrW) = false)
    (hsc : (id == .scW) = false) (hamo : id.isAmo = false) (m : Word)
    (hr : a.reserved = h.reserved) :
    (a.next id m false true m).reserved = h.reservedAfterStore m := by
  unfold AtomicLsu.next Hart.reservedAfterStore
  rw [hlr, hsc, hamo, ← hr, sameWord_iff]
  unfold AtomicLsu.reserved
  cases hv : a.lrValid
  · by_cases hw : m.toNat / 4 = a.lrAddr.toNat / 4 <;> simp [hw, hv]
  · by_cases hw : m.toNat / 4 = a.lrAddr.toNat / 4 <;> simp [hw, hv, Option.filter]

/-- An aligned store writes its bytes and may break the reservation. -/
theorem agrees_store {op : StoreOp} {rs1 rs2 : BitVec 5} {imm : BitVec 12}
    (he : (Instr.store op rs1 rs2 imm).exec h = some o) :
    Agrees (.store op rs1 rs2 imm) h o sc v := by
  have hid : op.id.isLoad = false ∧ op.id.isAmo = false ∧ (op.id == .scW) = false ∧
      (op.id == .lrW) = false := by
    cases op <;> decide
  change (if (h.regs rs1 + imm.signExtend 32).toNat % op.size = 0 then _ else none) = _ at he
  split at he
  · rename_i hal
    obtain rfl := Option.some.inj he
    -- The lanes the core derives from the address are those of the instruction set.
    have hbe : MemoryUnit.writeByteEnable op.id (h.regs rs1 + imm.signExtend 32) = op.be := by
      cases op
      case sb => rfl
      case sh =>
        have hodd : (h.regs rs1 + imm.signExtend 32).getLsbD 0 = false :=
          (low_one _).trans (decide_eq_false (not_not_intro hal))
        change (if (h.regs rs1 + imm.signExtend 32).getLsbD 0 then _ else _) = _
        rw [hodd]
        rfl
      case sw =>
        have hlow : ((h.regs rs1 + imm.signExtend 32).extractLsb' 0 2 != 0#2) = false :=
          (low_two _).trans (decide_eq_false (not_not_intro hal))
        change (if (h.regs rs1 + imm.signExtend 32).extractLsb' 0 2 = 0#2 then _ else _) = _
        rw [if_pos (by simpa using hlow)]
        rfl
    have hdata : MemoryUnit.wrData op.id (h.regs rs2) = op.data (h.regs rs2) := by
      cases op <;> rfl
    have hstd : ((Instr.store op rs1 rs2 imm).slot h).stdStore = true := by
      change (op.id.isPlainStore &&
        MemoryUnit.writeByteEnable op.id (h.regs rs1 + imm.signExtend 32) != 0b0000#4) = true
      rw [hbe]
      cases op <;> rfl
    constructor
    · rw [ExMem.accesses, hstd]
      change (if op.id.isLoad then _ else _) ++ (if op.id.isAmo then _
        else if op.id == InstrId.scW && sc then _ else [Access.write _
          (MemoryUnit.writeByteEnable op.id (h.regs rs1 + imm.signExtend 32))
          (MemoryUnit.wrData op.id (h.regs rs2))]) = _
      rw [hid.1, hid.2.1, hid.2.2.1, hbe, hdata]
      rfl
    · rfl
    · intro a ha
      rw [hstd]
      exact next_reserved_of_store hid.2.2.2 hid.2.2.1 hid.2.1 _ ha
  · exact absurd he.symm (Option.some_ne_none _)

/-- An SC writes if its reservation stands, says so in its register, and ends the reservation. -/
theorem agrees_sc {aqrl : BitVec 2} {rd rs1 rs2 : BitVec 5}
    (he : (Instr.sc aqrl rd rs1 rs2).exec h = some o)
    (hsc : sc = decide (h.reserved = some (h.regs rs1))) :
    Agrees (.sc aqrl rd rs1 rs2) h o sc v := by
  have hres : ∀ (p : Word) (x : Word) (l : List Access) (a : AtomicLsu),
      (a.next .scW (h.regs rs1) false ((Instr.sc aqrl rd rs1 rs2).slot h).stdStore
        (h.regs rs1)).reserved = (⟨p, rd, x, l, none⟩ : Outcome).reserved :=
    fun _ _ _ _ => next_reserved_of_break rfl rfl _ _ _
  change (if (h.regs rs1).toNat % 4 = 0 then if _ then _ else _ else none) = _ at he
  split at he
  · split at he
    · rename_i hr
      obtain rfl := Option.some.inj he
      rw [decide_eq_true hr] at hsc
      subst hsc
      exact ⟨rfl, (writes_eq ⟨_, rd, 0#32, _, none⟩).symm, fun a _ => hres _ _ _ a⟩
    · rename_i hr
      obtain rfl := Option.some.inj he
      rw [decide_eq_false hr] at hsc
      subst hsc
      exact ⟨rfl, (writes_eq ⟨_, rd, 1#32, _, none⟩).symm, fun a _ => hres _ _ _ a⟩
  · exact absurd he.symm (Option.some_ne_none _)

/-- An AMO reads and then writes, and ends the reservation. -/
theorem agrees_amo {op : AmoOp} {aqrl : BitVec 2} {rd rs1 rs2 : BitVec 5}
    (he : (Instr.amo op aqrl rd rs1 rs2).exec h = some o)
    (hv : v = loadValue h.mem (h.regs rs1).toNat 0b010#3) :
    Agrees (.amo op aqrl rd rs1 rs2) h o sc v := by
  have hid : op.id.isLoad = true ∧ op.id.isAmo = true ∧ (op.id == .lrW) = false := by
    cases op <;> decide
  have hk : ((Instr.amo op aqrl rd rs1 rs2).slot h).readType = 0b010#3 := by
    cases op <;> rfl
  change (if (h.regs rs1).toNat % 4 = 0 then _ else none) = _ at he
  split at he
  · obtain rfl := Option.some.inj he
    subst hv
    constructor
    · rw [ExMem.accesses, hk]
      change (if op.id.isLoad then _ else _) ++ (if op.id.isAmo then
        [Access.write _ _ (AtomicLsu.newWord op.id _ _)] else _) = _
      rw [hid.1, hid.2.1, newWord_eq]
      rfl
    · rw [writes_eq, ExMem.result]
      change (if true && rd != 0#5 then [(rd, if op.id.isLoad then _ else _)] else _) = _
      rw [hid.1]
      rfl
    · intro a _
      exact next_reserved_of_break hid.2.2 (by rw [hid.2.1, Bool.or_true]) _ _ _
  · exact absurd he.symm (Option.some_ne_none _)

/-- **The slot of an instruction does what the instruction does.** -/
theorem agrees (he : i.exec h = some o) (ha : Answers i h sc v) : Agrees i h o sc v := by
  cases i with
  | op op rd rs1 rs2 =>
    obtain rfl := Option.some.inj he
    have hid : op.id.isLoad = false ∧ op.id.isPlainStore = false ∧ (op.id == .scW) = false := by
      cases op <;> decide
    exact agrees_register hid.1 hid.2.1 hid.2.2 rfl rfl (writes_eq _)
  | opImm op rd rs1 imm =>
    obtain rfl := Option.some.inj he
    have hid : op.id.isLoad = false ∧ op.id.isPlainStore = false ∧ (op.id == .scW) = false := by
      cases op <;> decide
    exact agrees_register hid.1 hid.2.1 hid.2.2 rfl rfl (writes_eq _)
  | shift op rd rs1 shamt =>
    obtain rfl := Option.some.inj he
    have hid : op.id.isLoad = false ∧ op.id.isPlainStore = false ∧ (op.id == .scW) = false := by
      cases op <;> decide
    exact agrees_register hid.1 hid.2.1 hid.2.2 rfl rfl (writes_eq _)
  | load op rd rs1 imm =>
    have hid : op.id.isLoad = true ∧ op.id.isAmo = false ∧ (op.id == .lrW) = false := by
      cases op <;> decide
    have hk : ((Instr.load op rd rs1 imm).slot h).readType = op.funct3 := by
      cases op <;> rfl
    -- A misaligned load traps, and so is excluded by `he`.
    have hval := ha.value hid.1
    rw [hk] at hval
    change (if (h.regs rs1 + imm.signExtend 32).toNat % op.size = 0 then _ else none) = _ at he
    split at he
    · obtain rfl := Option.some.inj he
      subst hval
      refine agrees_load rfl hid.1 hid.2.1 rfl rfl hk fun a hr => ?_
      change (a.next op.id _ false false _).reserved = _
      rw [next_reserved_of_other hid.2.2 (InstrId.not_store_of_isLoad hid.1).2 hid.2.1, hr]
    · exact absurd he.symm (Option.some_ne_none _)
  | store op rs1 rs2 imm => exact agrees_store he
  | branch op rs1 rs2 off =>
    have hid : op.id.isLoad = false ∧ op.id.isPlainStore = false ∧ (op.id == .scW) = false := by
      cases op <;> decide
    change (if op.taken (h.regs rs1) (h.regs rs2) then _ else _) = _ at he
    split at he
    · exact agrees_jump he hid.1 hid.2.1 hid.2.2 fun _ => rfl
    · obtain rfl := Option.some.inj he
      exact agrees_register hid.1 hid.2.1 hid.2.2 rfl rfl rfl
  | jal rd off => exact agrees_jump he rfl rfl rfl fun _ => writes_eq _
  | jalr rd rs1 imm => exact agrees_jump he rfl rfl rfl fun _ => writes_eq _
  | lui rd imm =>
    obtain rfl := Option.some.inj he
    exact agrees_register rfl rfl rfl rfl rfl (writes_eq _)
  | auipc rd imm =>
    obtain rfl := Option.some.inj he
    exact agrees_register rfl rfl rfl rfl rfl (writes_eq _)
  | lr aqrl rd rs1 =>
    have hval : v = loadValue h.mem (h.regs rs1).toNat 0b010#3 := ha.value rfl
    change (if (h.regs rs1).toNat % 4 = 0 then _ else none) = _ at he
    split at he
    · rename_i hal
      obtain rfl := Option.some.inj he
      subst hval
      refine agrees_load rfl rfl rfl rfl rfl rfl fun a _ => ?_
      -- The reservation is set for an aligned word, which `he` has checked.
      have hword : AtomicLsu.wordAligned (h.regs rs1) = true := by
        have hlow : ((h.regs rs1).extractLsb' 0 2 != 0#2) = false :=
          (low_two _).trans (decide_eq_false (not_not_intro hal))
        simpa [AtomicLsu.wordAligned] using hlow
      change (if false = true then a else if (true && AtomicLsu.wordAligned (h.regs rs1)) = true
        then ⟨true, h.regs rs1⟩ else _ : AtomicLsu).reserved = _
      rw [hword]
      rfl
    · exact absurd he.symm (Option.some_ne_none _)
  | sc aqrl rd rs1 rs2 => exact agrees_sc he (ha.success rfl)
  | amo op aqrl rd rs1 rs2 =>
    have hid : op.id.isLoad = true := by cases op <;> rfl
    have hk : ((Instr.amo op aqrl rd rs1 rs2).slot h).readType = 0b010#3 := by
      cases op <;> rfl
    exact agrees_amo he (hk ▸ ha.value hid)
  | fence bits rd rs1 =>
    obtain rfl := Option.some.inj he
    -- A FENCE with PAUSE's bits decodes to PAUSE, and does as little.
    have hid : (Instr.fence bits rd rs1).decoded.instrId = .pause ∨
        (Instr.fence bits rd rs1).decoded.instrId = .fence := by
      change (if _ then InstrId.pause else InstrId.fence) = _ ∨ (if _ then _ else _) = _
      split
      · exact .inl rfl
      · exact .inr rfl
    refine agrees_register ?_ ?_ ?_ rfl rfl rfl <;> rcases hid with hid | hid <;> rw [hid] <;> rfl

end Instr

end Synapse32
