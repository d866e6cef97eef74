import Synapse32.Isa.Instr
import Synapse32.Isa.Memory

/-! # The sequential instruction set

One instruction at a time: a hart with its PC, registers, memory and reservation, what each
instruction does to it, and the runs in which no instruction traps. -/

namespace Synapse32

open ByteLanes

/-! ## Operations -/

/-- A comparison's result. -/
def boolWord (b : Bool) : Word := if b then 1#32 else 0#32

/-- A register-register operation. Division rounds toward zero; a division by zero gives all ones
and leaves the dividend as remainder; an overflow wraps. -/
def ROp.eval : ROp → Word → Word → Word
  | add, a, b => a + b
  | sub, a, b => a - b
  | sll, a, b => a <<< (b.toNat % 32)
  | slt, a, b => boolWord (a.toInt < b.toInt)
  | sltu, a, b => boolWord (a.toNat < b.toNat)
  | xor, a, b => a ^^^ b
  | srl, a, b => a >>> (b.toNat % 32)
  | sra, a, b => a.sshiftRight (b.toNat % 32)
  | or, a, b => a ||| b
  | and, a, b => a &&& b
  | mul, a, b => BitVec.ofInt 32 (a.toInt * b.toInt)
  | mulh, a, b => BitVec.ofInt 32 (a.toInt * b.toInt / 2 ^ 32)
  | mulhsu, a, b => BitVec.ofInt 32 (a.toInt * (b.toNat : ℤ) / 2 ^ 32)
  | mulhu, a, b => BitVec.ofInt 32 ((a.toNat : ℤ) * (b.toNat : ℤ) / 2 ^ 32)
  | div, a, b => if b = 0#32 then 0xFFFFFFFF#32 else BitVec.ofInt 32 (a.toInt.tdiv b.toInt)
  | divu, a, b => if b = 0#32 then 0xFFFFFFFF#32 else BitVec.ofNat 32 (a.toNat / b.toNat)
  | rem, a, b => if b = 0#32 then a else BitVec.ofInt 32 (a.toInt.tmod b.toInt)
  | remu, a, b => if b = 0#32 then a else BitVec.ofNat 32 (a.toNat % b.toNat)

/-- A register-immediate operation, the immediate sign-extended. -/
def IOp.eval : IOp → Word → Word → Word
  | addi, a, b => a + b
  | slti, a, b => boolWord (a.toInt < b.toInt)
  | sltiu, a, b => boolWord (a.toNat < b.toNat)
  | xori, a, b => a ^^^ b
  | ori, a, b => a ||| b
  | andi, a, b => a &&& b

/-- A shift by an immediate. -/
def ShiftOp.eval : ShiftOp → Word → ℕ → Word
  | slli, a, n => a <<< n
  | srli, a, n => a >>> n
  | srai, a, n => a.sshiftRight n

/-- Whether a branch is taken. -/
def BranchOp.taken : BranchOp → Word → Word → Bool
  | beq, a, b => a = b
  | bne, a, b => a ≠ b
  | blt, a, b => a.toInt < b.toInt
  | bge, a, b => b.toInt ≤ a.toInt
  | bltu, a, b => a.toNat < b.toNat
  | bgeu, a, b => b.toNat ≤ a.toNat

/-- The word an AMO writes, from the one it read. -/
def AmoOp.eval : AmoOp → Word → Word → Word
  | swap, _, b => b
  | add, a, b => a + b
  | and, a, b => a &&& b
  | or, a, b => a ||| b
  | xor, a, b => a ^^^ b
  | max, a, b => if b.toInt ≤ a.toInt then a else b
  | min, a, b => if a.toInt ≤ b.toInt then a else b
  | maxu, a, b => if b.toNat ≤ a.toNat then a else b
  | minu, a, b => if a.toNat ≤ b.toNat then a else b

/-- The bytes a load reads. -/
def LoadOp.size : LoadOp → ℕ
  | lb | lbu => 1
  | lh | lhu => 2
  | lw => 4

/-- The bytes a store writes. -/
def StoreOp.size : StoreOp → ℕ
  | sb => 1
  | sh => 2
  | sw => 4

/-- The byte enables of a store, counted from its address. -/
def StoreOp.be : StoreOp → BitVec 4
  | sb => 0b0001#4
  | sh => 0b0011#4
  | sw => 0b1111#4

/-- The data of a store: the part of the register that is stored. -/
def StoreOp.data : StoreOp → Word → Word
  | sb, v => (v.extractLsb' 0 8).setWidth 32
  | sh, v => (v.extractLsb' 0 16).setWidth 32
  | sw, v => v

/-! ## Harts -/

/-- The state of a hart and its memory. -/
structure Hart where
  pc : Word
  regs : BitVec 5 → Word
  mem : ℕ → BitVec 8
  reserved : Option Word

/-- What an instruction does: the next PC, the register it writes and its value, the accesses it
makes, and the reservation it leaves. -/
structure Outcome where
  pc : Word
  rd : BitVec 5
  value : Word
  accesses : List Access
  reserved : Option Word

namespace Outcome

/-- The register writes of an outcome: none to `x0`. -/
def writes (o : Outcome) : List (BitVec 5 × Word) := if o.rd = 0#5 then [] else [(o.rd, o.value)]

end Outcome

/-- The hart after an outcome. -/
def Hart.after (h : Hart) (o : Outcome) : Hart where
  pc := o.pc
  regs := o.writes.foldl (fun f w => Function.update f w.1 w.2) h.regs
  mem := o.accesses.foldl Access.apply h.mem
  reserved := o.reserved

/-- The reservation after a plain store: gone if the store is to the reserved word. -/
def Hart.reservedAfterStore (h : Hart) (a : Word) : Option Word :=
  h.reserved.filter fun r => a.toNat / 4 ≠ r.toNat / 4

/-- Go on at `target`, unless it is misaligned. -/
def jumpOutcome (h : Hart) (target : Word) (rd : BitVec 5) (value : Word) : Option Outcome :=
  if target.toNat % 4 = 0 then some ⟨target, rd, value, [], h.reserved⟩ else none

/-- **What an instruction does**; `none` where it traps, on a misaligned address. -/
def Instr.exec (i : Instr) (h : Hart) : Option Outcome :=
  let next := h.pc + 4#32
  match i with
  | .op o rd rs1 rs2 =>
    some ⟨next, rd, o.eval (h.regs rs1) (h.regs rs2), [], h.reserved⟩
  | .opImm o rd rs1 imm =>
    some ⟨next, rd, o.eval (h.regs rs1) (imm.signExtend 32), [], h.reserved⟩
  | .shift o rd rs1 shamt =>
    some ⟨next, rd, o.eval (h.regs rs1) shamt.toNat, [], h.reserved⟩
  | .load o rd rs1 imm =>
    let a := h.regs rs1 + imm.signExtend 32
    let v := loadValue h.mem a.toNat o.funct3
    if a.toNat % o.size = 0 then some ⟨next, rd, v, [.read a o.funct3 v], h.reserved⟩ else none
  | .store o rs1 rs2 imm =>
    let a := h.regs rs1 + imm.signExtend 32
    if a.toNat % o.size = 0 then
      some ⟨next, 0#5, 0#32, [.write a o.be (o.data (h.regs rs2))], h.reservedAfterStore a⟩
    else none
  | .branch o rs1 rs2 off =>
    if o.taken (h.regs rs1) (h.regs rs2) then
      jumpOutcome h (h.pc + (off ++ 0#1).signExtend 32) 0#5 0#32
    else some ⟨next, 0#5, 0#32, [], h.reserved⟩
  | .jal rd off => jumpOutcome h (h.pc + (off ++ 0#1).signExtend 32) rd next
  | .jalr rd rs1 imm =>
    jumpOutcome h ((h.regs rs1 + imm.signExtend 32) &&& 0xFFFFFFFE#32) rd next
  | .lui rd imm => some ⟨next, rd, imm ++ 0#12, [], h.reserved⟩
  | .auipc rd imm => some ⟨next, rd, h.pc + (imm ++ 0#12), [], h.reserved⟩
  | .lr _ rd rs1 =>
    let a := h.regs rs1
    let v := loadValue h.mem a.toNat 0b010#3
    if a.toNat % 4 = 0 then some ⟨next, rd, v, [.read a 0b010#3 v], some a⟩ else none
  | .sc _ rd rs1 rs2 =>
    let a := h.regs rs1
    if a.toNat % 4 = 0 then
      if h.reserved = some a then
        some ⟨next, rd, 0#32, [.write a 0b1111#4 (h.regs rs2)], none⟩
      else some ⟨next, rd, 1#32, [], none⟩
    else none
  | .amo o _ rd rs1 rs2 =>
    let a := h.regs rs1
    let v := loadValue h.mem a.toNat 0b010#3
    if a.toNat % 4 = 0 then
      some ⟨next, rd, v, [.read a 0b010#3 v, .write a 0b1111#4 (o.eval v (h.regs rs2))], none⟩
    else none
  | .fence _ _ _ => some ⟨next, 0#5, 0#32, [], h.reserved⟩

/-- **A run without traps** of the program `code`: the hart before each instruction, the
instruction at its PC, and what it does. -/
structure SeqRun (code : Word → Word) where
  hart : ℕ → Hart
  instr : ℕ → Instr
  outcome : ℕ → Outcome
  fetch : ∀ k, code (hart k).pc = (instr k).encode
  exec : ∀ k, (instr k).exec (hart k) = some (outcome k)
  after : ∀ k, hart (k + 1) = (hart k).after (outcome k)
  x0 : (hart 0).regs 0#5 = 0#32

namespace SeqRun

variable {code : Word → Word} (r : SeqRun code)

/-- The register writes of the first `k` instructions. -/
def writes (k : ℕ) : List (BitVec 5 × Word) := (List.range k).flatMap fun j => (r.outcome j).writes

/-- The accesses of the first `k` instructions. -/
def accesses (k : ℕ) : List Access := (List.range k).flatMap fun j => (r.outcome j).accesses

/-- One more instruction's register writes. -/
theorem writes_succ (k : ℕ) : r.writes (k + 1) = r.writes k ++ (r.outcome k).writes := by
  simp [writes, List.range_succ]

/-- One more instruction's accesses. -/
theorem accesses_succ (k : ℕ) : r.accesses (k + 1) = r.accesses k ++ (r.outcome k).accesses := by
  simp [accesses, List.range_succ]

/-- The memory is what the accesses so far make of the first one. -/
theorem mem_eq (k : ℕ) : (r.hart k).mem = (r.accesses k).foldl Access.apply (r.hart 0).mem := by
  induction k with
  | zero => rfl
  | succ k ih =>
    rw [r.after k, accesses_succ, List.foldl_append, ← ih]
    rfl

/-- The registers are what the writes so far make of the first ones. -/
theorem regs_eq (k : ℕ) : (r.hart k).regs =
    (r.writes k).foldl (fun f w => Function.update f w.1 w.2) (r.hart 0).regs := by
  induction k with
  | zero => rfl
  | succ k ih =>
    rw [r.after k, writes_succ, List.foldl_append, ← ih]
    rfl

/-- `x0` stays zero. -/
theorem regs_x0 (k : ℕ) : (r.hart k).regs 0#5 = 0#32 := by
  induction k with
  | zero => exact r.x0
  | succ k ih =>
    rw [r.after k, Hart.after, Outcome.writes]
    split
    · exact ih
    · rename_i hrd
      have hne : (0#5 : BitVec 5) ≠ (r.outcome k).rd := fun h => hrd h.symm
      simp only [List.foldl_cons, List.foldl_nil, Function.update_of_ne hne, ih]

end SeqRun

end Synapse32
