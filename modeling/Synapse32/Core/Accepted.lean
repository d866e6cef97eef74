import Synapse32.Core.Decode
import Synapse32.Rtl.ExecutionUnit
import Synapse32.Isa.System

/-! # What the decoder accepts

`decoder.v` inverts the encoding of every instruction of the core, and a word that encodes none is
an illegal instruction; only the `funct3` field of JALR is not looked at. -/

namespace Synapse32

/-! ## System instructions -/

/-- The id of a CSR operation. -/
def ZicsrOp.id : ZicsrOp → InstrId
  | csrrw => .csrrw
  | csrrs => .csrrs
  | csrrc => .csrrc
  | csrrwi => .csrrwi
  | csrrsi => .csrrsi
  | csrrci => .csrrci

/-- The id of a privileged instruction. -/
def PrivOp.id : PrivOp → InstrId
  | mret => .mret
  | sret => .sret
  | wfi => .wfi
  | ecall => .ecall
  | ebreak => .ebreak

/-- **The decoder's output for a system instruction.** The SYSTEM format has one set of validity
flags: `rs1` unless the field is an immediate, and `rd`, both `x0` where the instruction has
none. -/
def SysInstr.decoded : SysInstr → Decoded
  | .csr o rd rs1 addr =>
    ⟨0#5, rs1, addr.setWidth 32, rd, o.readsRs1, false, true, 0b1110011#7, o.id⟩
  | .priv o => ⟨0#5, 0#5, o.funct12.setWidth 32, 0#5, true, false, true, 0b1110011#7, o.id⟩
  | .sfenceVma rs1 rs2 =>
    ⟨0#5, rs1, (0b0001001#7 ++ rs2).setWidth 32, 0#5, true, false, true, 0b1110011#7, .sfenceVma⟩
  | .fenceI _ _ _ => ⟨0#5, 0#5, 0#32, 0#5, false, false, false, 0b0001111#7, .fenceI⟩

/-- The decoder's output for an instruction. -/
def AnyInstr.decoded : AnyInstr → Decoded
  | .user i => i.decoded
  | .system i => i.decoded

section Fields

variable (f7 : BitVec 7) (rs2 rs1 : BitVec 5) (f3 : BitVec 3) (rd : BitVec 5) (op : BitVec 7)

/-- The CSR address, and what stands in its place. -/
theorem imm_of_system : Decoder.imm (instrWord f7 rs2 rs1 f3 rd 0b1110011#7) =
    (f7 ++ rs2).setWidth 32 := by
  rw [Decoder.imm, opcode_instrWord, if_neg (by decide), if_neg (by decide), if_neg (by decide),
    if_neg (by decide), if_neg (by decide), if_pos (by decide), instrWord_imm]

/-- A SYSTEM word is told apart by `systemId`. -/
theorem instrId_system : Decoder.instrId (instrWord f7 rs2 rs1 f3 rd 0b1110011#7) =
    Decoder.systemId (instrWord f7 rs2 rs1 f3 rd 0b1110011#7) := by
  rw [Decoder.instrId, opcode_instrWord]
  rfl

/-- The MISC-MEM word of FENCE.I. -/
theorem instrId_fenceI : Decoder.instrId (instrWord f7 rs2 rs1 1#3 rd 0b0001111#7) = .fenceI := by
  rw [Decoder.instrId, opcode_instrWord, Decoder.miscMemId, func3_instrWord]
  rfl

end Fields

/-- The table of the CSR operations. -/
def Decoder.csrId (f3 : BitVec 3) : InstrId :=
  if f3 = 0x1#3 then .csrrw
  else if f3 = 0x2#3 then .csrrs
  else if f3 = 0x3#3 then .csrrc
  else if f3 = 0x5#3 then .csrrwi
  else if f3 = 0x6#3 then .csrrsi
  else if f3 = 0x7#3 then .csrrci
  else .invalid

/-- The privileged instructions have a `funct3` of zero. -/
theorem systemId_of_func3 {w : Word} (h : Decoder.func3 w ≠ 0#3) :
    Decoder.systemId w = Decoder.csrId (Decoder.func3 w) := by
  have hword : ∀ c : Word, Decoder.func3 c = 0#3 → w ≠ c := by
    rintro c hc rfl
    exact h hc
  unfold Decoder.systemId
  rw [if_neg (hword _ (by decide)), if_neg (hword _ (by decide)), if_neg (hword _ (by decide)),
    if_neg (hword _ (by decide)), if_neg (hword _ (by decide)), if_neg (fun hc => h hc.2.1)]
  rfl

/-- **The decoder decodes the system instructions.** -/
theorem decoder_encode_system (i : SysInstr) : decoder i.encode = i.decoded := by
  cases i with
  | csr o rd rs1 addr =>
    have hne : Decoder.func3 (SysInstr.csr o rd rs1 addr).encode ≠ 0#3 := by
      rw [SysInstr.encode, func3_instrWord]
      cases o <;> decide
    rw [SysInstr.encode] at hne ⊢
    rw [decoder_instrWord, instrId_system, systemId_of_func3 hne, func3_instrWord, imm_of_system,
      slices_imm]
    cases o <;> rfl
  | priv o => cases o <;> decide
  | sfenceVma rs1 rs2 =>
    rw [SysInstr.encode, decoder_instrWord, instrId_system, imm_of_system]
    -- the privileged instructions have another `funct7`
    have hword : ∀ c : Word, c.extractLsb' 25 7 ≠ 0b0001001#7 →
        instrWord 0b0001001#7 rs2 rs1 0#3 0#5 0b1110011#7 ≠ c := by
      rintro c hc rfl
      exact hc (instrWord_funct7 _ _ _ _ _ _)
    rw [Decoder.systemId, if_neg (hword _ (by decide)), if_neg (hword _ (by decide)),
      if_neg (hword _ (by decide)), if_neg (hword _ (by decide)), if_neg (hword _ (by decide)),
      instrWord_funct7, instrWord_rd, func3_instrWord]
    rfl
  | fenceI bits rd rs1 =>
    rw [SysInstr.encode, decoder_instrWord, instrId_fenceI, imm_of_none _ _ _ _ _ _ rfl]
    rfl

/-- The decoder decodes every instruction. -/
theorem decoder_encode_any (i : AnyInstr) : decoder i.encode = i.decoded := by
  cases i with
  | user i => exact decoder_encode i
  | system i => exact decoder_encode_system i

/-! ## Accepted words -/

/-- A word is its fields. -/
theorem instrWord_fields (w : Word) :
    instrWord (w.extractLsb' 25 7) (w.extractLsb' 20 5) (w.extractLsb' 15 5) (w.extractLsb' 12 3)
      (w.extractLsb' 7 5) (w.extractLsb' 0 7) = w := by
  have h1 := slices_append w 0 7 5
  have h2 := slices_append w 0 12 3
  have h3 := slices_append w 0 15 5
  have h4 := slices_append w 0 20 5
  have h5 := slices_append w 0 25 7
  unfold instrWord
  exact (congrArg _
    ((congrArg _ ((congrArg _ ((congrArg _ h1).trans h2)).trans h3)).trans h4)).trans
    (h5.trans BitVec.extractLsb'_eq_self)

/-- An entry of a decoding table: no instruction, or one with the fields looked up. -/
def Listed (named : Prop) (id : InstrId) : Prop := id = .invalid ∨ named

namespace Listed

variable {named c : Prop} [Decidable c] {a b : InstrId}

/-- The next row of a table. -/
theorem row (ha : c → named) (hb : Listed named b) : Listed named (if c then a else b) := by
  split
  · rename_i hc
    exact Or.inr (ha hc)
  · exact hb

/-- A choice between two tables. -/
theorem ite (ha : c → Listed named a) (hb : Listed named b) :
    Listed named (if c then a else b) := by
  split
  · rename_i hc
    exact ha hc
  · exact hb

/-- A table ends with no instruction. -/
theorem last : Listed named .invalid := Or.inl rfl

/-- A table of fewer instructions is one of more. -/
theorem mono {named' : Prop} (h : Listed named a) (himp : named → named') : Listed named' a :=
  h.imp_right himp

/-- An entry that is an instruction has the fields looked up. -/
theorem of_ne (h : Listed named a) (hne : a ≠ .invalid) : named := h.resolve_left hne

end Listed

/-! One lemma for each table: what it accepts is a row of the encoding. -/

/-- The table of OP. -/
theorem listed_rTypeId (f7 : BitVec 7) (f3 : BitVec 3) :
    Listed (∃ o : ROp, o.funct7 = f7 ∧ o.funct3 = f3) (Decoder.rTypeId f7 f3) := by
  unfold Decoder.rTypeId
  refine .row (fun h => ⟨.add, h.1.symm, h.2.symm⟩) ?_
  refine .row (fun h => ⟨.sub, h.1.symm, h.2.symm⟩) ?_
  refine .row (fun h => ⟨.mul, h.1.symm, h.2.symm⟩) ?_
  refine .row (fun h => ⟨.mulh, h.1.symm, h.2.symm⟩) ?_
  refine .row (fun h => ⟨.mulhsu, h.1.symm, h.2.symm⟩) ?_
  refine .row (fun h => ⟨.mulhu, h.1.symm, h.2.symm⟩) ?_
  refine .row (fun h => ⟨.xor, h.1.symm, h.2.symm⟩) ?_
  refine .row (fun h => ⟨.or, h.1.symm, h.2.symm⟩) ?_
  refine .row (fun h => ⟨.and, h.1.symm, h.2.symm⟩) ?_
  refine .row (fun h => ⟨.sll, h.1.symm, h.2.symm⟩) ?_
  refine .row (fun h => ⟨.srl, h.1.symm, h.2.symm⟩) ?_
  refine .row (fun h => ⟨.sra, h.1.symm, h.2.symm⟩) ?_
  refine .row (fun h => ⟨.slt, h.1.symm, h.2.symm⟩) ?_
  refine .row (fun h => ⟨.sltu, h.1.symm, h.2.symm⟩) ?_
  refine .row (fun h => ⟨.div, h.1.symm, h.2.symm⟩) ?_
  refine .row (fun h => ⟨.divu, h.1.symm, h.2.symm⟩) ?_
  refine .row (fun h => ⟨.rem, h.1.symm, h.2.symm⟩) ?_
  exact .row (fun h => ⟨.remu, h.1.symm, h.2.symm⟩) .last

/-- The tables of OP-IMM: shifts by their upper bits too. -/
theorem listed_iTypeId (f3 : BitVec 3) (f7 : BitVec 7) :
    Listed ((∃ o : IOp, o.funct3 = f3) ∨ ∃ o : ShiftOp, o.funct7 = f7 ∧ o.funct3 = f3)
      (Decoder.iTypeId f3 f7) := by
  unfold Decoder.iTypeId
  refine .row (fun h => .inl ⟨.addi, h.symm⟩) ?_
  refine .row (fun h => .inl ⟨.xori, h.symm⟩) ?_
  refine .row (fun h => .inl ⟨.ori, h.symm⟩) ?_
  refine .row (fun h => .inl ⟨.andi, h.symm⟩) ?_
  refine .ite (fun h3 => .row (fun h => .inr ⟨.slli, h.symm, h3.symm⟩) .last) ?_
  refine .ite (fun h3 => .row (fun h => .inr ⟨.srli, h.symm, h3.symm⟩)
    (.row (fun h => .inr ⟨.srai, h.symm, h3.symm⟩) .last)) ?_
  refine .row (fun h => .inl ⟨.slti, h.symm⟩) ?_
  exact .row (fun h => .inl ⟨.sltiu, h.symm⟩) .last

/-- The table of LOAD. -/
theorem listed_loadId (f3 : BitVec 3) :
    Listed (∃ o : LoadOp, o.funct3 = f3) (Decoder.loadId f3) := by
  unfold Decoder.loadId
  refine .row (fun h => ⟨.lb, h.symm⟩) ?_
  refine .row (fun h => ⟨.lh, h.symm⟩) ?_
  refine .row (fun h => ⟨.lw, h.symm⟩) ?_
  refine .row (fun h => ⟨.lbu, h.symm⟩) ?_
  exact .row (fun h => ⟨.lhu, h.symm⟩) .last

/-- The table of STORE. -/
theorem listed_storeId (f3 : BitVec 3) :
    Listed (∃ o : StoreOp, o.funct3 = f3) (Decoder.storeId f3) := by
  unfold Decoder.storeId
  refine .row (fun h => ⟨.sb, h.symm⟩) ?_
  refine .row (fun h => ⟨.sh, h.symm⟩) ?_
  exact .row (fun h => ⟨.sw, h.symm⟩) .last

/-- The table of BRANCH. -/
theorem listed_branchId (f3 : BitVec 3) :
    Listed (∃ o : BranchOp, o.funct3 = f3) (Decoder.branchId f3) := by
  unfold Decoder.branchId
  refine .row (fun h => ⟨.beq, h.symm⟩) ?_
  refine .row (fun h => ⟨.bne, h.symm⟩) ?_
  refine .row (fun h => ⟨.blt, h.symm⟩) ?_
  refine .row (fun h => ⟨.bge, h.symm⟩) ?_
  refine .row (fun h => ⟨.bltu, h.symm⟩) ?_
  exact .row (fun h => ⟨.bgeu, h.symm⟩) .last

/-- The A extension: LR with no `rs2`, SC, or an AMO. -/
theorem listed_amoId (f3 : BitVec 3) (f5 rs2 : BitVec 5) :
    Listed (f3 = 0b010#3 ∧ ((f5 = 0b00010#5 ∧ rs2 = 0#5) ∨ f5 = 0b00011#5 ∨
      ∃ o : AmoOp, o.funct5 = f5)) (Decoder.amoId f3 f5 rs2) := by
  unfold Decoder.amoId
  by_cases h3 : f3 = 0b010#3
  · rw [if_neg (not_not.mpr h3)]
    refine .ite (fun h5 => .row (fun h => ⟨h3, .inl ⟨h5, h⟩⟩) .last) ?_
    refine .row (fun h => ⟨h3, .inr (.inl h)⟩) ?_
    refine .row (fun h => ⟨h3, .inr (.inr ⟨.swap, h.symm⟩)⟩) ?_
    refine .row (fun h => ⟨h3, .inr (.inr ⟨.add, h.symm⟩)⟩) ?_
    refine .row (fun h => ⟨h3, .inr (.inr ⟨.and, h.symm⟩)⟩) ?_
    refine .row (fun h => ⟨h3, .inr (.inr ⟨.or, h.symm⟩)⟩) ?_
    refine .row (fun h => ⟨h3, .inr (.inr ⟨.xor, h.symm⟩)⟩) ?_
    refine .row (fun h => ⟨h3, .inr (.inr ⟨.max, h.symm⟩)⟩) ?_
    refine .row (fun h => ⟨h3, .inr (.inr ⟨.min, h.symm⟩)⟩) ?_
    refine .row (fun h => ⟨h3, .inr (.inr ⟨.maxu, h.symm⟩)⟩) ?_
    exact .row (fun h => ⟨h3, .inr (.inr ⟨.minu, h.symm⟩)⟩) .last
  · rw [if_pos h3]
    exact .last

/-- The table of SYSTEM: privileged words, SFENCE.VMA and the CSR instructions. -/
theorem listed_systemId (w : Word) :
    Listed ((∃ o : PrivOp, (SysInstr.priv o).encode = w) ∨
      (w.extractLsb' 25 7 = 0b0001001#7 ∧ Decoder.func3 w = 0#3 ∧ w.extractLsb' 7 5 = 0#5) ∨
      ∃ o : ZicsrOp, o.funct3 = Decoder.func3 w) (Decoder.systemId w) := by
  unfold Decoder.systemId
  refine .row (fun h => .inl ⟨.mret, by rw [h]; decide⟩) ?_
  refine .row (fun h => .inl ⟨.sret, by rw [h]; decide⟩) ?_
  refine .row (fun h => .inl ⟨.wfi, by rw [h]; decide⟩) ?_
  refine .row (fun h => .inl ⟨.ecall, by rw [h]; decide⟩) ?_
  refine .row (fun h => .inl ⟨.ebreak, by rw [h]; decide⟩) ?_
  refine .row (fun h => .inr (.inl h)) ?_
  refine .row (fun h => .inr (.inr ⟨.csrrw, h.symm⟩)) ?_
  refine .row (fun h => .inr (.inr ⟨.csrrs, h.symm⟩)) ?_
  refine .row (fun h => .inr (.inr ⟨.csrrc, h.symm⟩)) ?_
  refine .row (fun h => .inr (.inr ⟨.csrrwi, h.symm⟩)) ?_
  refine .row (fun h => .inr (.inr ⟨.csrrsi, h.symm⟩)) ?_
  exact .row (fun h => .inr (.inr ⟨.csrrci, h.symm⟩)) .last

/-! ## Immediates taken apart again -/

section Slices

variable (f7 : BitVec 7) (rs2 rs1 : BitVec 5) (f3 : BitVec 3) (rd : BitVec 5)

/-- The upper bits of a 12-bit immediate. -/
theorem high_imm : (f7 ++ rs2).extractLsb' 5 7 = f7 := BitVec.extractLsb'_append_eq_left

/-- The lower bits of a 12-bit immediate. -/
theorem low_imm : (f7 ++ rs2).extractLsb' 0 5 = rs2 := BitVec.extractLsb'_append_eq_right

/-- The U immediate of a word. -/
theorem exists_upper : ∃ imm : BitVec 20, imm.extractLsb' 13 7 = f7 ∧ imm.extractLsb' 8 5 = rs2 ∧
    imm.extractLsb' 3 5 = rs1 ∧ imm.extractLsb' 0 3 = f3 := by
  refine ⟨f7 ++ (rs2 ++ (rs1 ++ f3)), BitVec.extractLsb'_append_eq_left, ?_, ?_, ?_⟩
  · rw [BitVec.extractLsb'_append_eq_of_add_le (by omega)]
    exact BitVec.extractLsb'_append_eq_left
  · iterate 2 rw [BitVec.extractLsb'_append_eq_of_add_le (by omega)]
    exact BitVec.extractLsb'_append_eq_left
  · iterate 2 rw [BitVec.extractLsb'_append_eq_of_add_le (by omega)]
    exact BitVec.extractLsb'_append_eq_right

/-- A field of seven bits from two slices. -/
theorem slices_seven : f7.extractLsb' 6 1 ++ f7.extractLsb' 0 6 = f7 :=
  (slices_append f7 0 6 1).trans BitVec.extractLsb'_eq_self

/-- A field of five bits from two slices. -/
theorem slices_five : rd.extractLsb' 1 4 ++ rd.extractLsb' 0 1 = rd :=
  (slices_append rd 0 1 4).trans BitVec.extractLsb'_eq_self

/-- The B immediate of a word. -/
theorem exists_branch : ∃ off : BitVec 12,
    off.extractLsb' 11 1 ++ off.extractLsb' 4 6 = f7 ∧
      off.extractLsb' 0 4 ++ off.extractLsb' 10 1 = rd := by
  refine ⟨f7.extractLsb' 6 1 ++ (rd.extractLsb' 0 1 ++ (f7.extractLsb' 0 6 ++ rd.extractLsb' 1 4)),
    ?_, ?_⟩
  · refine (congrArg₂ (· ++ ·) BitVec.extractLsb'_append_eq_left ?_).trans (slices_seven f7)
    iterate 2 rw [BitVec.extractLsb'_append_eq_of_add_le (by omega)]
    exact BitVec.extractLsb'_append_eq_left
  · refine (congrArg₂ (· ++ ·) ?_ ?_).trans (slices_five rd)
    · iterate 2 rw [BitVec.extractLsb'_append_eq_of_add_le (by omega)]
      exact BitVec.extractLsb'_append_eq_right
    · rw [BitVec.extractLsb'_append_eq_of_add_le (by omega)]
      exact BitVec.extractLsb'_append_eq_left

/-- The J immediate of a word. -/
theorem exists_jump : ∃ off : BitVec 20,
    off.extractLsb' 19 1 ++ off.extractLsb' 4 6 = f7 ∧
      off.extractLsb' 0 4 ++ off.extractLsb' 10 1 = rs2 ∧ off.extractLsb' 14 5 = rs1 ∧
      off.extractLsb' 11 3 = f3 := by
  refine ⟨f7.extractLsb' 6 1 ++ (rs1 ++ (f3 ++ (rs2.extractLsb' 0 1 ++
    (f7.extractLsb' 0 6 ++ rs2.extractLsb' 1 4)))), ?_, ?_, ?_, ?_⟩
  · refine (congrArg₂ (· ++ ·) BitVec.extractLsb'_append_eq_left ?_).trans (slices_seven f7)
    iterate 4 rw [BitVec.extractLsb'_append_eq_of_add_le (by omega)]
    exact BitVec.extractLsb'_append_eq_left
  · refine (congrArg₂ (· ++ ·) ?_ ?_).trans (slices_five rs2)
    · iterate 4 rw [BitVec.extractLsb'_append_eq_of_add_le (by omega)]
      exact BitVec.extractLsb'_append_eq_right
    · iterate 3 rw [BitVec.extractLsb'_append_eq_of_add_le (by omega)]
      exact BitVec.extractLsb'_append_eq_left
  · rw [BitVec.extractLsb'_append_eq_of_add_le (by omega)]
    exact BitVec.extractLsb'_append_eq_left
  · iterate 2 rw [BitVec.extractLsb'_append_eq_of_add_le (by omega)]
    exact BitVec.extractLsb'_append_eq_left

end Slices

/-! ## The reject side -/

/-- The word encodes an instruction. -/
def Encodes (w : Word) : Prop := ∃ i : AnyInstr, i.encode = w

/-- A JALR whose `funct3` is reserved. -/
def ReservedJalr (w : Word) : Prop := Decoder.opcode w = 0b1100111#7 ∧ Decoder.func3 w ≠ 0#3

/-- Whether a word is such a JALR can be decided. -/
instance (w : Word) : Decidable (ReservedJalr w) := instDecidableAnd

section Accepts

variable (f7 : BitVec 7) (rs2 rs1 : BitVec 5) (f3 : BitVec 3) (rd : BitVec 5)

/-- A register-register operation is encoded. -/
theorem encodes_op (o : ROp) : Encodes (instrWord o.funct7 rs2 rs1 o.funct3 rd 0b0110011#7) :=
  ⟨.user (.op o rd rs1 rs2), rfl⟩

/-- A word of the I layout is an instruction if its fields are. -/
theorem encodes_of_imm {op : BitVec 7} {i : BitVec 12 → AnyInstr}
    (h : ∀ imm, (i imm).encode =
      instrWord (imm.extractLsb' 5 7) (imm.extractLsb' 0 5) rs1 f3 rd op) :
    Encodes (instrWord f7 rs2 rs1 f3 rd op) := by
  refine ⟨i (f7 ++ rs2), ?_⟩
  rw [h, high_imm, low_imm]

/-- What OP accepts is encoded. -/
theorem listed_op :
    Listed (Encodes (instrWord f7 rs2 rs1 f3 rd 0b0110011#7)) (Decoder.rTypeId f7 f3) := by
  apply (listed_rTypeId f7 f3).mono
  rintro ⟨o, rfl, rfl⟩
  exact encodes_op rs2 rs1 rd o

/-- What OP-IMM accepts is encoded. -/
theorem listed_opImm : Listed (Encodes (instrWord f7 rs2 rs1 f3 rd 0b0010011#7))
    (Decoder.iTypeId f3 (((f7 ++ rs2).signExtend 32).extractLsb' 5 7)) := by
  rw [shift_check]
  apply (listed_iTypeId f3 f7).mono
  rintro (⟨o, rfl⟩ | ⟨o, rfl, rfl⟩)
  · exact encodes_of_imm f7 rs2 rs1 _ rd (i := fun imm => .user (.opImm o rd rs1 imm)) fun _ => rfl
  · exact ⟨.user (.shift o rd rs1 rs2), rfl⟩

/-- What LOAD accepts is encoded. -/
theorem listed_load :
    Listed (Encodes (instrWord f7 rs2 rs1 f3 rd 0b0000011#7)) (Decoder.loadId f3) := by
  apply (listed_loadId f3).mono
  rintro ⟨o, rfl⟩
  exact encodes_of_imm f7 rs2 rs1 _ rd (i := fun imm => .user (.load o rd rs1 imm)) fun _ => rfl

/-- What STORE accepts is encoded. -/
theorem listed_store :
    Listed (Encodes (instrWord f7 rs2 rs1 f3 rd 0b0100011#7)) (Decoder.storeId f3) := by
  apply (listed_storeId f3).mono
  rintro ⟨o, rfl⟩
  refine ⟨.user (.store o rs1 rs2 (f7 ++ rd)), ?_⟩
  show instrWord ((f7 ++ rd).extractLsb' 5 7) rs2 rs1 o.funct3 ((f7 ++ rd).extractLsb' 0 5) _ = _
  rw [high_imm, low_imm]

/-- What BRANCH accepts is encoded. -/
theorem listed_branch :
    Listed (Encodes (instrWord f7 rs2 rs1 f3 rd 0b1100011#7)) (Decoder.branchId f3) := by
  apply (listed_branchId f3).mono
  rintro ⟨o, rfl⟩
  obtain ⟨off, h7, hd⟩ := exists_branch f7 rd
  refine ⟨.user (.branch o rs1 rs2 off), ?_⟩
  show instrWord (off.extractLsb' 11 1 ++ off.extractLsb' 4 6) rs2 rs1 o.funct3
    (off.extractLsb' 0 4 ++ off.extractLsb' 10 1) _ = _
  rw [h7, hd]

/-- Every JAL word encodes a jump. -/
theorem encodes_jal : Encodes (instrWord f7 rs2 rs1 f3 rd 0b1101111#7) := by
  obtain ⟨off, h7, h2, h1, h3⟩ := exists_jump f7 rs2 rs1 f3
  refine ⟨.user (.jal rd off), ?_⟩
  show instrWord (off.extractLsb' 19 1 ++ off.extractLsb' 4 6)
    (off.extractLsb' 0 4 ++ off.extractLsb' 10 1) (off.extractLsb' 14 5) (off.extractLsb' 11 3)
    rd _ = _
  rw [h7, h2, h1, h3]

/-- A JALR word encodes a jump when `funct3` is 0. -/
theorem encodes_jalr : Encodes (instrWord f7 rs2 rs1 0#3 rd 0b1100111#7) :=
  encodes_of_imm f7 rs2 rs1 _ rd (i := fun imm => .user (.jalr rd rs1 imm)) fun _ => rfl

/-- Every LUI word is encoded. -/
theorem encodes_lui : Encodes (instrWord f7 rs2 rs1 f3 rd 0b0110111#7) := by
  obtain ⟨imm, h7, h2, h1, h3⟩ := exists_upper f7 rs2 rs1 f3
  refine ⟨.user (.lui rd imm), ?_⟩
  show instrWord (imm.extractLsb' 13 7) (imm.extractLsb' 8 5) (imm.extractLsb' 3 5)
    (imm.extractLsb' 0 3) rd _ = _
  rw [h7, h2, h1, h3]

/-- Every AUIPC word is encoded. -/
theorem encodes_auipc : Encodes (instrWord f7 rs2 rs1 f3 rd 0b0010111#7) := by
  obtain ⟨imm, h7, h2, h1, h3⟩ := exists_upper f7 rs2 rs1 f3
  refine ⟨.user (.auipc rd imm), ?_⟩
  show instrWord (imm.extractLsb' 13 7) (imm.extractLsb' 8 5) (imm.extractLsb' 3 5)
    (imm.extractLsb' 0 3) rd _ = _
  rw [h7, h2, h1, h3]

/-- What AMO accepts is encoded. -/
theorem listed_amo : Listed (Encodes (instrWord f7 rs2 rs1 f3 rd 0b0101111#7))
    (Decoder.amoId f3 (f7.extractLsb' 2 5) rs2) := by
  have hsplit : f7.extractLsb' 2 5 ++ f7.extractLsb' 0 2 = f7 :=
    (slices_append f7 0 2 5).trans BitVec.extractLsb'_eq_self
  apply (listed_amoId f3 (f7.extractLsb' 2 5) rs2).mono
  rintro ⟨rfl, ⟨h5, rfl⟩ | h5 | ⟨o, h5⟩⟩
  · refine ⟨.user (.lr (f7.extractLsb' 0 2) rd rs1), ?_⟩
    show instrWord (0b00010#5 ++ f7.extractLsb' 0 2) 0#5 rs1 0b010#3 rd _ = _
    rw [← h5, hsplit]
  · refine ⟨.user (.sc (f7.extractLsb' 0 2) rd rs1 rs2), ?_⟩
    show instrWord (0b00011#5 ++ f7.extractLsb' 0 2) rs2 rs1 0b010#3 rd _ = _
    rw [← h5, hsplit]
  · refine ⟨.user (.amo o (f7.extractLsb' 0 2) rd rs1 rs2), ?_⟩
    show instrWord (o.funct5 ++ f7.extractLsb' 0 2) rs2 rs1 0b010#3 rd _ = _
    rw [h5, hsplit]

/-- What MISC-MEM accepts is encoded. -/
theorem listed_miscMem : Listed (Encodes (instrWord f7 rs2 rs1 f3 rd 0b0001111#7))
    (Decoder.miscMemId (instrWord f7 rs2 rs1 f3 rd 0b0001111#7)) := by
  unfold Decoder.miscMemId
  rw [func3_instrWord]
  refine .ite (fun h => ?_) (.row (fun h => ?_) .last)
  · subst h
    exact Or.inr (encodes_of_imm f7 rs2 rs1 _ rd (i := fun bits => .user (.fence bits rd rs1))
      fun _ => rfl)
  · subst h
    exact encodes_of_imm f7 rs2 rs1 _ rd (i := fun bits => .system (.fenceI bits rd rs1))
      fun _ => rfl

/-- What SYSTEM accepts is encoded. -/
theorem listed_system : Listed (Encodes (instrWord f7 rs2 rs1 f3 rd 0b1110011#7))
    (Decoder.systemId (instrWord f7 rs2 rs1 f3 rd 0b1110011#7)) := by
  apply (listed_systemId _).mono
  rw [instrWord_funct7, instrWord_rd, func3_instrWord]
  rintro (⟨o, ho⟩ | ⟨rfl, rfl, rfl⟩ | ⟨o, rfl⟩)
  · exact ⟨.system (.priv o), ho⟩
  · exact ⟨.system (.sfenceVma rs1 rs2), rfl⟩
  · exact encodes_of_imm f7 rs2 rs1 _ rd (i := fun addr => .system (.csr o rd rs1 addr))
      fun _ => rfl

/-- **A word that decodes to an instruction encodes one**, unless it is a reserved JALR. -/
theorem listed_instrWord {op : BitVec 7} (h : op = 0b1100111#7 → f3 = 0#3) :
    Listed (Encodes (instrWord f7 rs2 rs1 f3 rd op))
      (Decoder.instrId (instrWord f7 rs2 rs1 f3 rd op)) := by
  unfold Decoder.instrId
  rw [opcode_instrWord]
  dsimp only
  -- One goal for each opcode that the decoder tells apart, in its order.
  refine .ite ?_ (.ite ?_ (.ite ?_ (.ite ?_ (.ite ?_ (.row ?_ (.row ?_ (.row ?_ (.row ?_
    (.ite ?_ (.ite ?_ (.ite ?_ .last)))))))))))
  · rintro rfl
    rw [func7_instrWord _ _ _ _ _ _ rfl, func3_instrWord]
    exact listed_op f7 rs2 rs1 f3 rd
  · rintro rfl
    rw [func3_instrWord, imm_of_shift]
    exact listed_opImm f7 rs2 rs1 f3 rd
  · rintro rfl
    rw [func3_instrWord]
    exact listed_load f7 rs2 rs1 f3 rd
  · rintro rfl
    rw [func3_instrWord]
    exact listed_store f7 rs2 rs1 f3 rd
  · rintro rfl
    rw [func3_instrWord]
    exact listed_branch f7 rs2 rs1 f3 rd
  · rintro rfl
    exact encodes_jal f7 rs2 rs1 f3 rd
  · rintro rfl
    rw [h rfl]
    exact encodes_jalr f7 rs2 rs1 rd
  · rintro rfl
    exact encodes_lui f7 rs2 rs1 f3 rd
  · rintro rfl
    exact encodes_auipc f7 rs2 rs1 f3 rd
  · rintro rfl
    rw [func3_instrWord, funct5_instrWord, instrWord_rs2]
    exact listed_amo f7 rs2 rs1 f3 rd
  · rintro rfl
    exact listed_miscMem f7 rs2 rs1 f3 rd
  · rintro rfl
    exact listed_system f7 rs2 rs1 f3 rd

end Accepts

/-- **A word that is accepted encodes an instruction**, the reserved JALR words apart. -/
theorem encodes_of_ne_invalid {w : Word} (h : ¬ ReservedJalr w)
    (hid : (decoder w).instrId ≠ .invalid) : Encodes w := by
  have hw := instrWord_fields w
  have hlisted : Listed (Encodes w) (Decoder.instrId w) := by
    rw [← hw]
    refine listed_instrWord _ _ _ _ _ fun hop => ?_
    by_contra h3
    exact h ⟨hop, h3⟩
  exact hlisted.of_ne hid

/-- Only JALR has its opcode, with a `funct3` of zero. -/
theorem not_encodes_of_reservedJalr {w : Word} (h : ReservedJalr w) : ¬ Encodes w := by
  rintro ⟨i, rfl⟩
  have hop : (decoder i.encode).opcode = 0b1100111#7 := h.1
  rw [decoder_encode_any] at hop
  cases i with
  | system i => cases i <;> simp [AnyInstr.decoded, SysInstr.decoded] at hop
  | user i =>
    cases i
    case jalr rd rs1 imm => exact h.2 (func3_instrWord _ _ _ _ _ _)
    all_goals simp [AnyInstr.decoded, Instr.decoded] at hop

/-! ## The trap -/

/-- EX takes the illegal-instruction trap: it redirects to the handler, flushes, and reports the
word. -/
structure TrapsIllegal (x : ExIn) : Prop where
  exception : (executionUnit x).illegalInstructionException = true
  jumpSignal : (executionUnit x).jumpSignal = true
  flushPipeline : (executionUnit x).flushPipeline = true
  jumpAddr : (executionUnit x).jumpAddr =
    if ExecutionUnit.delegate x 2 then x.stvec else x.mtvec
  tval : (executionUnit x).exceptionTval = x.instr

/-- An instruction that takes effect in EX, with no interrupt or execute trigger ahead of it. -/
structure TakesEffect (x : ExIn) : Prop where
  valid : x.instrValid = true
  enable : x.stageEnable = true
  interrupt : x.interruptPending = false
  trigger : ExecutionUnit.executeTriggerHit x = false

/-- An invalid instruction in EX that takes effect traps as illegal. -/
theorem TakesEffect.trapsIllegal {x : ExIn} (h : TakesEffect x) (hid : x.instrId = .invalid) :
    TrapsIllegal x := by
  have hout : ExecutionUnit.ungated x = ExecutionUnit.illegalInstruction x {} := by
    have hi : ¬ x.interruptPending = true := by rw [h.interrupt]; exact Bool.false_ne_true
    have ht : ¬ ExecutionUnit.executeTriggerHit x = true := by
      rw [h.trigger]
      exact Bool.false_ne_true
    rw [ExecutionUnit.ungated, if_neg hi, if_neg ht, if_pos ⟨h.valid, hid⟩]
  constructor <;> rw [executionUnit, ExecutionUnit.gate, if_pos h.enable, hout] <;> rfl

/-- What a complete decoder does with one word: an instruction decodes to itself, and any other word
is illegal. -/
structure Decodes (w : Word) : Prop where
  accepts : ∀ i : AnyInstr, i.encode = w → decoder w = i.decoded
  rejects : ¬ Encodes w → (decoder w).instrId = .invalid ∧
    ∀ x : ExIn, x.instrId = (decoder w).instrId → TakesEffect x → TrapsIllegal x

/-- **The decoder accepts exactly the instruction set**, the reserved encodings of JALR apart. -/
theorem decodes_iff (w : Word) : Decodes w ↔ ¬ ReservedJalr w := by
  constructor
  · intro h hres
    have hid := (h.rejects (not_encodes_of_reservedJalr hres)).1
    have hjalr : (decoder w).instrId = .jalr := by
      show Decoder.instrId w = .jalr
      unfold Decoder.instrId
      rw [hres.1]
      rfl
    exact InstrId.noConfusion (hjalr.symm.trans hid)
  · intro h
    refine ⟨fun i hi => hi ▸ decoder_encode_any i, fun hno => ?_⟩
    have hid : (decoder w).instrId = .invalid := by
      by_contra hne
      exact hno (encodes_of_ne_invalid h hne)
    exact ⟨hid, fun x hx heff => heff.trapsIllegal (hx.trans hid)⟩

/-- `0x00001067` has the opcode of JALR and a `funct3` of one. -/
theorem not_decodes_reserved : ¬ Decodes 0x00001067#32 := by
  intro h
  have hno : ¬ Encodes 0x00001067#32 := not_encodes_of_reservedJalr (by decide)
  exact absurd (h.rejects hno).1 (by decide)

end Synapse32
