import Synapse32.Core.Interrupts
import Synapse32.Core.Sequential

/-! # The core simulates the sequential instruction set

From reset, in M-mode and without traps, the register writes and the data accesses of the pipeline
are those of one instruction at a time, whatever the cycles in which fetches and data accesses are
answered. -/

namespace Synapse32

open ExecutionUnit

namespace RiscvCpu

/-! ## The memory interface -/

/-- The core after reset, with given register contents. -/
def start (h : Hart) : RiscvCpu := { reset with registerFile := h.regs }

/-- The fetch that is out before cycle `n`: accepted and not answered. -/
def pendingFetch (s0 : RiscvCpu) (ins : ℕ → CpuIn) : ℕ → Option Word
  | 0 => none
  | n + 1 =>
    if (ins n).instrRvalidIn then none
    else if (ins n).instrGntIn then some (runFrom s0 ins n).pc
    else pendingFetch s0 ins n

/-- The data memory before cycle `n`. -/
def dataMemory (m0 : ℕ → BitVec 8) (s0 : RiscvCpu) (ins : ℕ → CpuIn) (n : ℕ) : ℕ → BitVec 8 :=
  (accessLog s0 ins n).foldl Access.apply m0

/-- **The timings the memory interface allows.** Translation is off, so nothing faults. A fetch
is granted when none is out, and answered in its grant cycle or later with the word at its
address. A data access is answered in any cycle, a read with data that extends to the memory's
current value. -/
structure Interface (code : Word → Word) (h : Hart) (ins : ℕ → CpuIn) : Prop where
  noFault : ∀ n, (ins n).loadPageFaultIn = false ∧ (ins n).storePageFaultIn = false ∧
    (ins n).instrPageFaultIn = false
  grant : ∀ n, (ins n).instrGntIn = true → pendingFetch (start h) ins n = none
  fetch : ∀ n, (ins n).instrRvalidIn = true → ∃ a, (ins n).instrIn = code a ∧
    (if (ins n).instrGntIn then some (runFrom (start h) ins n).pc
      else pendingFetch (start h) ins n) = some a
  data : ∀ n, (ins n).dataRvalidIn = true → memRdEn (runFrom (start h) ins n) = true →
    extendLoad (loadType (runFrom (start h) ins n)) (ins n).readDataIn =
      loadValue (dataMemory h.mem (start h) ins n) (readAddr (runFrom (start h) ins n)).toNat
        (loadType (runFrom (start h) ins n))

/-! ## Operands -/

/-- An operand after forwarding. -/
def resolve (s : RiscvCpu) (rs : BitVec 5) (valid : Bool) (own : Word) : Word :=
  (forwardingUnit rs valid s.exMem s.memWb).select own (exMemForwardResult s) s.memWb.rdValue

/-- An operand of EX is what the forwarding unit makes of it. -/
theorem rs1Value_exIn (s : RiscvCpu) (i : CpuIn) :
    rs1Value (exIn s i) = resolve s s.idEx.dec.rs1 s.idEx.dec.rs1Valid s.idEx.rs1Value := rfl

/-- The second operand of EX is resolved by forwarding. -/
theorem rs2Value_exIn (s : RiscvCpu) (i : CpuIn) :
    rs2Value (exIn s i) = resolve s s.idEx.dec.rs2 s.idEx.dec.rs2Valid s.idEx.rs2Value := rfl

/-- The operand an instruction is to have: zero where it has none. -/
def operand (regs : Registerfile) (rs : BitVec 5) (valid : Bool) : Word :=
  if valid then regs rs else 0#32

variable {s : RiscvCpu} {i : CpuIn}

/-- The register file after one write, at one register. -/
theorem applyWrites_write (regs : Registerfile) (w : MemWb) (rs : BitVec 5) :
    regs.applyWrites w.write rs =
      if w.rdValid = true ∧ w.rdAddr ≠ 0#5 ∧ w.rdAddr = rs then w.rdValue else regs rs := by
  unfold MemWb.write Registerfile.applyWrites MemWb.wrEn
  cases hv : w.rdValid
  · simp
  · by_cases hz : w.rdAddr = 0#5
    · simp [hz]
    · by_cases hr : w.rdAddr = rs
      · subst hr
        simp [hz]
      · have hne : rs ≠ w.rdAddr := fun h => hr h.symm
        simp [hz, hr, hne]

/-- **A read port delivers the register as write-back leaves it.** -/
theorem read_eq_operand (regs : Registerfile) (w : MemWb) (rs : BitVec 5) (valid : Bool) :
    regs.read rs valid w.rdAddr w.wrEn w.rdValue =
      operand (regs.applyWrites w.write) rs valid := by
  unfold Registerfile.read operand
  cases valid
  · rfl
  · rw [if_pos rfl, if_pos rfl, applyWrites_write]
    by_cases h : w.rdValid = true ∧ w.rdAddr ≠ 0#5 ∧ w.rdAddr = rs
    · rw [if_pos h, if_pos ⟨h.2.2.symm, h.1, h.2.1⟩]
    · rw [if_neg h, if_neg fun hc => h ⟨hc.2.1, hc.2.2, hc.1.symm⟩]

/-- Where decode moves on, EX holds no load that decode reads from. -/
theorem not_loads_of_hazardStall (hz : hazardStall s = false) :
    let d := decoder s.ifId.instruction
    let loads := fun rs : BitVec 5 => s.idEx.dec.instrId.isLoad = true ∧
      s.idEx.dec.rdValid = true ∧ s.idEx.dec.rd ≠ 0#5 ∧ rs = s.idEx.dec.rd
    (d.rs1Valid = true → ¬ loads d.rs1) ∧ (d.rs2Valid = true → ¬ loads d.rs2) := by
  rw [hazardStall, loadUseDetector, Bool.and_eq_false_iff, Bool.or_eq_false_iff] at hz
  constructor
  · rintro hv ⟨hl, hrd, hne, hrs⟩
    simp [hl, hrd, hne, hv, hrs] at hz
  · rintro hv ⟨hl, hrd, hne, hrs⟩
    simp [hl, hrd, hne, hv, hrs] at hz

/-- **While MEM waits, an operand that EX has captured stays what it was.** -/
theorem resolve_of_wait {s' : RiscvCpu} (hm : s'.exMem = s.exMem)
    (hr : exMemForwardResult s' = exMemForwardResult s) (hw : s'.memWb = MemWb.bubble s.exMem.pc)
    (rs : BitVec 5) (valid : Bool) (own : Word) :
    resolve s' rs valid (resolve s rs valid own) = resolve s rs valid own := by
  unfold resolve forwardingUnit
  rw [hm, hr, hw]
  cases valid
  · rfl
  · by_cases h : s.exMem.rdValid = true ∧ s.exMem.rdAddr ≠ 0#5 ∧ s.exMem.rdAddr = rs ∧
      s.exMem.instrId.isLoad = false
    · simp only [if_true, if_pos h, Forward.select]
    · simp [if_neg h, MemWb.bubble, Forward.select]

/-- A wait keeps all that EX can forward from. -/
theorem exMemForwardResult_of_memWait (hw : memWait s i = true) :
    exMemForwardResult (next s i) = exMemForwardResult s := by
  have hres : (next s i).atomicLsu = s.atomicLsu := by
    change s.atomicLsu.next _ _ (memWait s i) _ _ = _
    rw [hw]
    rfl
  unfold exMemForwardResult scResult isScW scSuccess
  rw [exMem_next_of_memWait hw, hres]

/-- While MEM waits, WB takes a bubble. -/
theorem memWb_next_of_memWait (hw : memWait s i = true) :
    (next s i).memWb = MemWb.bubble s.exMem.pc := by
  change MemWb.next _ (memWait s i) = _
  rw [hw]
  rfl

/-- While MEM waits, an operand that EX has captured stays what it was. -/
theorem resolve_of_memWait (hw : memWait s i = true) (rs : BitVec 5) (valid : Bool) (own : Word) :
    resolve (next s i) rs valid (resolve s rs valid own) = resolve s rs valid own :=
  resolve_of_wait (exMem_next_of_memWait hw) (exMemForwardResult_of_memWait hw)
    (memWb_next_of_memWait hw) rs valid own

/-- **An operand read in decode is right in EX.** The register file is two instructions behind,
the one that is then in write-back and the one in MEM; where MEM's would be a load, decode has
waited. -/
theorem resolve_of_move {s' : RiscvCpu} {regs : Registerfile} {rs : BitVec 5} {valid : Bool}
    {result : Word} (hr : s'.exMem.instrId.isLoad = false → exMemForwardResult s' = result)
    (hload : valid = true → ¬ (s'.exMem.rdValid = true ∧ s'.exMem.rdAddr ≠ 0#5 ∧
      s'.exMem.rdAddr = rs ∧ s'.exMem.instrId.isLoad = true)) :
    resolve s' rs valid (operand regs rs valid) =
      operand (fun q => if s'.exMem.rdValid = true ∧ s'.exMem.rdAddr ≠ 0#5 ∧ s'.exMem.rdAddr = q
        then result else regs.applyWrites s'.memWb.write q) rs valid := by
  cases valid
  · rfl
  have hload := hload rfl
  unfold resolve forwardingUnit operand
  simp only [if_true]
  by_cases h : s'.exMem.rdValid = true ∧ s'.exMem.rdAddr ≠ 0#5 ∧ s'.exMem.rdAddr = rs
  · have hnl : s'.exMem.instrId.isLoad = false := by
      by_contra hl
      exact hload ⟨h.1, h.2.1, h.2.2, Bool.eq_true_of_not_eq_false hl⟩
    rw [if_pos ⟨h.1, h.2.1, h.2.2, hnl⟩, if_pos h]
    exact hr hnl
  · rw [if_neg fun hc => h ⟨hc.1, hc.2.1, hc.2.2.1⟩, if_neg h, applyWrites_write]
    by_cases hw : s'.memWb.rdValid = true ∧ s'.memWb.rdAddr ≠ 0#5 ∧ s'.memWb.rdAddr = rs
    · rw [if_pos ⟨hw.1, hw.1, hw.2.1, hw.2.2⟩, if_pos hw]
      rfl
    · rw [if_neg fun hc => hw ⟨hc.1, hc.2.2.1, hc.2.2.2⟩, if_neg hw]
      rfl

end RiscvCpu

end Synapse32
