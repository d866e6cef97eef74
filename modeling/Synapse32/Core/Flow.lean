import Synapse32.Core.Traps

/-! # The front end in program order

IF/ID, ID/EX and the PC hold consecutive instructions, with bubbles between them from load-use
stalls, fetch waits, redirects and the sleep of WFI. This file names the address of the oldest
instruction that has not left EX and shows that it can be read off the three registers in every
cycle. -/

namespace Synapse32

/-! ## Opcodes and ids in the decoder -/

namespace Decoder

/-- The opcode an id is decoded from. -/
def majorOpcode : InstrId → BitVec 7
  | .invalid => 0#7
  | .add | .sub | .xor | .or | .and | .sll | .srl | .sra | .slt | .sltu
  | .mul | .mulh | .mulhsu | .mulhu | .div | .divu | .rem | .remu => 0b0110011#7
  | .addi | .xori | .ori | .andi | .slli | .srli | .srai | .slti | .sltiu => 0b0010011#7
  | .lb | .lh | .lw | .lbu | .lhu => 0b0000011#7
  | .sb | .sh | .sw => 0b0100011#7
  | .beq | .bne | .blt | .bge | .bltu | .bgeu => 0b1100011#7
  | .jal => 0b1101111#7
  | .jalr => 0b1100111#7
  | .lui => 0b0110111#7
  | .auipc => 0b0010111#7
  | .fence | .fenceI | .pause => 0b0001111#7
  | .csrrw | .csrrs | .csrrc | .csrrwi | .csrrsi | .csrrci
  | .mret | .ecall | .ebreak | .wfi | .sret | .sfenceVma => 0b1110011#7
  | .lrW | .scW | .amoswapW | .amoaddW | .amoandW | .amoorW | .amoxorW
  | .amomaxW | .amominW | .amomaxuW | .amominuW => 0b0101111#7

/-- An entry of the decoding table of one opcode. -/
def EntryOf (op : BitVec 7) (id : InstrId) : Prop := id = .invalid ∨ majorOpcode id = op

/-- A choice between two entries is an entry. -/
theorem EntryOf.ite {op : BitVec 7} {c : Prop} [Decidable c] {a b : InstrId}
    (ha : EntryOf op a) (hb : EntryOf op b) : EntryOf op (if c then a else b) := by
  split
  · exact ha
  · exact hb

/-- **An id is decoded from its own opcode.** -/
theorem entryOf_instrId (w : Word) : EntryOf (opcode w) (instrId w) := by
  -- One fact for each table of the decoder, then one step for each opcode.
  have hr : ∀ f7 f3, EntryOf 0b0110011#7 (rTypeId f7 f3) := by
    intro f7 f3
    unfold rTypeId
    repeat' first | exact .inl rfl | exact .inr rfl | apply EntryOf.ite
  have hi : ∀ f3 hi, EntryOf 0b0010011#7 (iTypeId f3 hi) := by
    intro f3 hi
    unfold iTypeId
    repeat' first | exact .inl rfl | exact .inr rfl | apply EntryOf.ite
  have hl : ∀ f3, EntryOf 0b0000011#7 (loadId f3) := by
    intro f3
    unfold loadId
    repeat' first | exact .inl rfl | exact .inr rfl | apply EntryOf.ite
  have hs : ∀ f3, EntryOf 0b0100011#7 (storeId f3) := by
    intro f3
    unfold storeId
    repeat' first | exact .inl rfl | exact .inr rfl | apply EntryOf.ite
  have hb : ∀ f3, EntryOf 0b1100011#7 (branchId f3) := by
    intro f3
    unfold branchId
    repeat' first | exact .inl rfl | exact .inr rfl | apply EntryOf.ite
  have ha : ∀ f3 f5 rs2, EntryOf 0b0101111#7 (amoId f3 f5 rs2) := by
    intro f3 f5 rs2
    unfold amoId
    repeat' first | exact .inl rfl | exact .inr rfl | apply EntryOf.ite
  have hm : EntryOf 0b0001111#7 (miscMemId w) := by
    unfold miscMemId
    repeat' first | exact .inl rfl | exact .inr rfl | apply EntryOf.ite
  have hy : EntryOf 0b1110011#7 (systemId w) := by
    unfold systemId
    repeat' first | exact .inl rfl | exact .inr rfl | apply EntryOf.ite
  unfold instrId
  dsimp only
  refine iteInduction (fun h => h ▸ hr _ _) fun _ => ?_
  refine iteInduction (fun h => h ▸ hi _ _) fun _ => ?_
  refine iteInduction (fun h => h ▸ hl _) fun _ => ?_
  refine iteInduction (fun h => h ▸ hs _) fun _ => ?_
  refine iteInduction (fun h => h ▸ hb _) fun _ => ?_
  refine iteInduction (fun h => .inr h.symm) fun _ => ?_
  refine iteInduction (fun h => .inr h.symm) fun _ => ?_
  refine iteInduction (fun h => .inr h.symm) fun _ => ?_
  refine iteInduction (fun h => .inr h.symm) fun _ => ?_
  refine iteInduction (fun h => h ▸ ha _ _ _) fun _ => ?_
  refine iteInduction (fun h => h ▸ hm) fun _ => ?_
  exact iteInduction (fun h => h ▸ hy) fun _ => .inl rfl

/-- The opcode of a word that decodes to an instruction. -/
theorem opcode_eq_majorOpcode {w : Word} (h : instrId w ≠ .invalid) :
    opcode w = majorOpcode (instrId w) := by
  rcases entryOf_instrId w with hid | hop
  · exact absurd hid h
  · exact hop.symm

/-- FENCE or FENCE.I. -/
def isFence (id : InstrId) : Bool := id == .fence || id == .fenceI

/-- Only a MISC-MEM word decodes to a fence. -/
theorem opcode_of_fence {w : Word} (h : isFence (instrId w) = true) :
    opcode w = 0b0001111#7 := by
  simp only [isFence, Bool.or_eq_true, beq_iff_eq] at h
  rcases h with h | h
  all_goals
    rw [opcode_eq_majorOpcode (by rw [h]; exact InstrId.noConfusion), h]
    rfl

end Decoder

/-- A fence has no destination. -/
theorem decoder_rdValid_of_fence {w : Word} (h : Decoder.isFence (decoder w).instrId = true) :
    (decoder w).rdValid = false := by
  have hop : Decoder.opcode w = 0b0001111#7 := Decoder.opcode_of_fence h
  simp [decoder, hop, Decoder.isR, Decoder.isU, Decoder.isJ, Decoder.isI, Decoder.isCsr,
    Decoder.isAmo]

/-- A fence reads no register. -/
theorem decoder_operands_of_fence {w : Word} (h : Decoder.isFence (decoder w).instrId = true) :
    (decoder w).rs1Valid = false ∧ (decoder w).rs2Valid = false := by
  have hop : Decoder.opcode w = 0b0001111#7 := Decoder.opcode_of_fence h
  constructor <;>
    simp [decoder, hop, Decoder.isR, Decoder.isI, Decoder.isS, Decoder.isB, Decoder.isCsr,
      Decoder.isAmo]

/-- The decoder's output for a slot that holds no instruction: the bubble of a flush, or the NOP
word that came down from IF/ID. -/
def Decoded.IsBubble (d : Decoded) : Prop := d = bubbleDecoded ∨ d = decoder nopInstr

/-- A bubble is an ADDI that writes nothing. -/
theorem Decoded.IsBubble.facts {d : Decoded} (h : d.IsBubble) :
    d.opcode = 0b0010011#7 ∧ d.instrId = .addi ∧ d.rd = 0#5 := by
  rcases h with rfl | rfl <;> decide

namespace RiscvCpu

variable {s : RiscvCpu} {i : CpuIn}

/-! ## Redirects -/

/-- EX's output in any cycle: what the interrupt asks for, or an answer of the instruction. -/
theorem exOut_cases (s : RiscvCpu) (i : CpuIn) :
    interruptTakenQualified s i = true ∨ ExecutionUnit.Answer (exIn s i) (exOut s i) := by
  cases hp : (exIn s i).interruptPending
  · exact .inr (executionUnit_answer hp)
  cases ha : exStageActive s i
  · obtain ⟨v, a, m, t, hout⟩ := executionUnit_held (x := exIn s i) ha
    right
    rw [exOut, hout]
    exact ExecutionUnit.answer_held _ v a m t
  · have hout := executionUnit_interrupt hp (x := exIn s i) ha
    have hnot : memStagePageFaultTaken s i = false ∧ instrStagePageFaultTaken s i = false := by
      simp only [exIn, exInWith, Bool.and_eq_true, Bool.not_eq_true'] at hp
      exact ⟨hp.1.2, hp.2⟩
    left
    simp [interruptTakenQualified, synchronousExceptionTaken, exOut, hout, hnot.1, hnot.2,
      ExecutionUnit.redirect]

/-- **Every flush is a redirect.** -/
theorem pipelineFlush_eq_jSignal (s : RiscvCpu) (i : CpuIn) : pipelineFlush s i = jSignal s i := by
  have hflush : (exOut s i).flushPipeline = (exOut s i).jumpSignal := by
    rcases exOut_cases s i with h | h
    · rw [exOut_of_interrupt h]; rfl
    · exact h.flush
  unfold pipelineFlush jSignal
  rw [hflush]
  cases (exOut s i).jumpSignal <;> simp

/-- An EX that is held asks for no redirect and takes no exception. -/
theorem exOut_of_held (h : exStageActive s i = false) :
    (exOut s i).jumpSignal = false ∧ synchronousExceptionTaken s i = false ∧
      (exOut s i).system = (false, false, false) := by
  obtain ⟨v, a, m, t, hout⟩ := executionUnit_held (x := exIn s i) h
  unfold synchronousExceptionTaken
  rw [exOut, hout]
  exact ⟨rfl, rfl, rfl⟩

/-- What squashes the instruction in EX also redirects the PC. -/
theorem jSignal_of_exMemFlush (h : exMemFlush s i = true) : jSignal s i = true := by
  unfold exMemFlush at h
  rcases exOut_cases s i with hint | hans
  · simp [jSignal, exOut_of_interrupt hint, ExecutionUnit.redirect]
  · have hint : interruptTakenQualified s i = false := by
      simp [interruptTakenQualified, hans.interruptTaken]
    cases hs : synchronousExceptionTaken s i
    · rw [hs, hint, Bool.or_false, Bool.or_false] at h
      rw [jSignal, h, Bool.true_or]
    · have hj : (exOut s i).jumpSignal = true := hans.jump hs
      rw [jSignal, hj, Bool.or_true]

/-- While MEM waits, nothing squashes and nothing redirects. -/
theorem jSignal_of_memWait (h : memWait s i = true) : jSignal s i = false := by
  have ha : exStageActive s i = false := by rw [exStageActive, h]; rfl
  have hm : memStagePageFaultTaken s i = false := by
    by_contra hm
    rw [memWait_of_memFault (by simpa using hm)] at h
    exact Bool.false_ne_true h
  have hf : instrStagePageFaultTaken s i = false := by
    rw [instrStagePageFaultTaken, ha, Bool.and_false, Bool.false_and]
  rw [jSignal, hm, hf, (exOut_of_held ha).1]
  rfl

/-- A squash is one of the redirects to a trap. -/
theorem redirect?_isSome (s : RiscvCpu) (i : CpuIn) :
    (redirect? s i).isSome = exMemFlush s i := by
  unfold redirect? exMemFlush
  cases memStagePageFaultTaken s i <;> cases instrStagePageFaultTaken s i <;>
    cases interruptTakenQualified s i <;> cases synchronousExceptionTaken s i <;> rfl

/-! ## Issue -/

/-- The instruction in EX leaves for MEM at this edge. -/
def issues (s : RiscvCpu) (i : CpuIn) : Bool :=
  s.idEx.instrValid && exStageActive s i && !exMemFlush s i

/-- The address of the next instruction in program order after this cycle: where the PC is
redirected to, else one further if the instruction in EX leaves. -/
def nextProgramPc (s : RiscvCpu) (i : CpuIn) (programPc : Word) : Word :=
  if jSignal s i then jump s i else if issues s i then programPc + 4#32 else programPc

/-- **The front end holds consecutive instructions** from `programPc` on: in EX if EX has an
instruction, else in IF/ID, else at the PC. A slot without an instruction holds a bubble, and so
do both slots while the core sleeps. -/
structure FrontInv (s : RiscvCpu) (programPc : Word) : Prop where
  ex : s.idEx.instrValid = true → s.idEx.pc = programPc
  id : s.ifId.instructionValid = true →
    s.ifId.pc = if s.idEx.instrValid then programPc + 4#32 else programPc
  pc : s.pc = programPc + (if s.idEx.instrValid then 4#32 else 0#32) +
    (if s.ifId.instructionValid then 4#32 else 0#32)
  exDec : s.idEx.instrValid = true → s.idEx.dec = decoder s.idEx.instr
  exBubble : s.idEx.instrValid = false → s.idEx.dec.IsBubble
  idBubble : s.ifId.instructionValid = false → s.ifId.instruction = nopInstr
  asleep : s.wfiActive = true → s.idEx.instrValid = false ∧ s.ifId.instructionValid = false

/-- **P is the oldest instruction that has not left EX.** -/
theorem FrontInv.interruptPc {programPc : Word} (h : FrontInv s programPc) :
    interruptPc s = programPc := by
  unfold RiscvCpu.interruptPc
  cases hex : s.idEx.instrValid
  · cases hid : s.ifId.instructionValid
    · simpa [hex, hid] using h.pc
    · simpa [hex] using h.id hid
  · exact h.ex hex

/-- A bubble in EX asks for nothing but the interrupt. -/
theorem FrontInv.jumpSignal_of_bubble {programPc : Word} (h : FrontInv s programPc)
    (hv : s.idEx.instrValid = false) (hint : interruptTakenQualified s i = false) :
    (exOut s i).jumpSignal = false ∧ synchronousExceptionTaken s i = false ∧
      (exOut s i).system = (false, false, false) := by
  obtain ⟨hop, -, -⟩ := (h.exBubble hv).facts
  cases ha : exStageActive s i
  · exact exOut_of_held ha
  -- An interrupt that EX sees here would be taken.
  have hp : (exIn s i).interruptPending = false := by
    by_contra hp
    have hout := executionUnit_interrupt (x := exIn s i) (by simpa using hp) ha
    have hin : ((interrupt s).interruptPending && !memStagePageFaultTaken s i &&
        !instrStagePageFaultTaken s i) = true := Bool.eq_true_of_not_eq_false hp
    simp only [Bool.and_eq_true, Bool.not_eq_true'] at hin
    simp [interruptTakenQualified, synchronousExceptionTaken, exOut, hout, hin.1.2, hin.2,
      ExecutionUnit.redirect] at hint
  have htrig : ExecutionUnit.executeTriggerHit (exIn s i) = false := by
    simp [ExecutionUnit.executeTriggerHit, exIn, exInWith, hv]
  -- What runs is the ADDI of a bubble.
  have hval : (exIn s i).instrValid = false := hv
  have hopc : (exIn s i).opcode = 0b0010011#7 := hop
  have hout : exOut s i =
      { execOutput := (ExecutionUnit.executeOpcode (exIn s i)).execOutput } := by
    unfold exOut executionUnit ExecutionUnit.ungated
    rw [hp, htrig, hval]
    have hse : (exIn s i).stageEnable = true := ha
    rw [hse]
    simp [ExecutionUnit.executeOpcode, hopc, ExecutionUnit.gate, ExecutionUnit.reportInstr]
  unfold synchronousExceptionTaken
  rw [hout]
  exact ⟨rfl, rfl, rfl⟩

/-- A redirect that squashes nothing comes from an instruction that leaves EX. -/
theorem FrontInv.issues_of_jSignal {programPc : Word} (h : FrontInv s programPc)
    (hj : jSignal s i = true) (hf : exMemFlush s i = false) : issues s i = true := by
  simp only [exMemFlush, Bool.or_eq_false_iff] at hf
  obtain ⟨⟨⟨hm, hi⟩, hs⟩, hint⟩ := hf
  have hjump : (exOut s i).jumpSignal = true := by simpa [jSignal, hm, hi] using hj
  have hv : s.idEx.instrValid = true := by
    by_contra hv
    have := (h.jumpSignal_of_bubble (Bool.eq_false_of_not_eq_true hv) hint).1
    exact Bool.false_ne_true (this.symm.trans hjump)
  have ha : exStageActive s i = true := by
    by_contra ha
    have := (exOut_of_held (Bool.eq_false_of_not_eq_true ha)).1
    exact Bool.false_ne_true (this.symm.trans hjump)
  simp [issues, hv, ha, exMemFlush, hm, hi, hs, hint]

/-! ## One cycle of the front end -/

/-- **What the front end does in a cycle.** It is redirected; or it is held; or decode waits for a
load in EX; or decode moves on and a fetched word or a bubble enters. -/
theorem front_cases (s : RiscvCpu) (i : CpuIn) :
    (jSignal s i = true ∧ (next s i).pc = jump s i ∧
      (next s i).ifId = ⟨s.pc, nopInstr, false, false⟩ ∧
      (next s i).idEx = IdEx.bubble s.ifId.pc) ∨
    (jSignal s i = false ∧ (next s i).pc = s.pc ∧ (next s i).ifId = s.ifId ∧
      pipelineHold s i = true ∧
      (next s i).idEx = { s.idEx with
        rs1Value := ExecutionUnit.rs1Value (exIn s i)
        rs2Value := ExecutionUnit.rs2Value (exIn s i) }) ∨
    (jSignal s i = false ∧ (next s i).pc = s.pc ∧ (next s i).ifId = s.ifId ∧
      pipelineHold s i = false ∧ hazardStall s = true ∧
      (next s i).idEx = IdEx.bubble s.ifId.pc) ∨
    (jSignal s i = false ∧ pipelineHold s i = false ∧ hazardStall s = false ∧
      (next s i).idEx = decodeOut s ∧
      ((fetchWait s i = true ∧ (next s i).pc = s.pc ∧
          (next s i).ifId = ⟨s.pc, nopInstr, false, false⟩) ∨
        (fetchWait s i = false ∧ (next s i).pc = s.pc + 4#32 ∧
          (next s i).ifId = ⟨s.pc, i.instrIn, true, i.instrPageFaultIn⟩))) := by
  have hpc : (next s i).pc = nextPc s i := rfl
  have hifId : (next s i).ifId = s.ifId.next s.pc i.instrIn i.instrPageFaultIn
      (pipelineFlush s i || (fetchWait s i && !pipelineStall s i))
      (pipelineStall s i && !pipelineFlush s i) := rfl
  have hidEx : (next s i).idEx = s.idEx.next (decodeOut s) (ExecutionUnit.rs1Value (exIn s i))
      (ExecutionUnit.rs2Value (exIn s i)) (pipelineFlush s i)
      (pipelineHold s i && !pipelineFlush s i) (hazardStall s && !pipelineFlush s i) := rfl
  rw [hpc, hifId, hidEx, pipelineFlush_eq_jSignal]
  unfold nextPc pipelineStall IfId.next IdEx.next
  -- A redirect wins over a hold, and a hold over a load-use stall.
  cases hj : jSignal s i
  · cases hh : pipelineHold s i
    · cases hz : hazardStall s
      · cases hw : fetchWait s i <;> simp
      · simp [decodeOut]
    · simp
  · simp [decodeOut]

/-- A WFI stall comes from a sleeping core. -/
theorem wfiActive_of_wfiStall (h : wfiStall s = true) : s.wfiActive = true := by
  rw [wfiStall, Bool.and_eq_true] at h
  exact h.1

/-- A sleeping core holds its pipeline. -/
theorem pipelineHold_of_wfiStall (h : wfiStall s = true) : pipelineHold s i = true := by
  rw [pipelineHold, h, Bool.true_or, Bool.true_or]

/-- A front end that is held holds the instruction in EX: a sleeping core has none there. -/
theorem FrontInv.exStageActive_of_hold {programPc : Word} (h : FrontInv s programPc)
    (hh : pipelineHold s i = true) (hv : s.idEx.instrValid = true) :
    exStageActive s i = false := by
  have hsleep : wfiStall s = false := by
    by_contra hw
    have hw := wfiActive_of_wfiStall (Bool.eq_true_of_not_eq_false hw)
    exact Bool.false_ne_true ((h.asleep hw).1.symm.trans hv)
  unfold pipelineHold at hh
  rw [hsleep, Bool.false_or] at hh
  unfold exStageActive
  cases hm : memWait s i
  · rw [hm, Bool.or_false] at hh
    rw [hh]
    rfl
  · rfl

/-- A drain stall comes from a fence in EX. -/
theorem isFence_of_fenceDrainStall (h : fenceDrainStall s i = true) :
    Decoder.isFence s.idEx.dec.instrId = true := by
  simp only [fenceDrainStall, Bool.and_eq_true, Bool.or_eq_true] at h
  simp only [Decoder.isFence, Bool.or_eq_true]
  rcases h.2 with hq | hq
  · exact hq.2
  · exact .inr hq.2

/-- Without a wait in MEM, only a fence is held in EX, and it has no operand. -/
theorem FrontInv.noOperand_of_held {programPc : Word} (hf : FrontInv s programPc)
    (hv : s.idEx.instrValid = true) (ha : exStageActive s i = false)
    (hw : memWait s i = false) :
    s.idEx.dec.rs1Valid = false ∧ s.idEx.dec.rs2Valid = false := by
  have hfence : fenceDrainStall s i = true := by simpa [exStageActive, hw] using ha
  have hid := isFence_of_fenceDrainStall hfence
  rw [hf.exDec hv] at hid ⊢
  exact decoder_operands_of_fence hid

/-- What is not held is active in EX. -/
theorem exStageActive_of_not_hold (hh : pipelineHold s i = false) :
    exStageActive s i = true := by
  simp only [pipelineHold, Bool.or_eq_false_iff] at hh
  rw [exStageActive, hh.1.2, hh.2]
  rfl

/-- While the front end is held, no instruction leaves EX. -/
theorem FrontInv.issues_of_hold {programPc : Word} (h : FrontInv s programPc)
    (hh : pipelineHold s i = true) : issues s i = false := by
  unfold issues
  cases hv : s.idEx.instrValid
  · rfl
  · rw [h.exStageActive_of_hold hh hv]
    rfl

/-- While the front end moves, an instruction in EX leaves. -/
theorem issues_of_not_hold (hj : jSignal s i = false) (hh : pipelineHold s i = false) :
    issues s i = s.idEx.instrValid := by
  have hf : exMemFlush s i = false := by
    by_contra hf
    have := jSignal_of_exMemFlush (Bool.eq_true_of_not_eq_false hf)
    exact Bool.false_ne_true (hj.symm.trans this)
  rw [issues, exStageActive_of_not_hold hh, hf, Bool.and_true, Bool.not_false, Bool.and_true]

/-- The sleep flag goes up only with a redirect, and stays up only while it holds the pipeline. -/
theorem wfiStall_of_next (hw : (next s i).wfiActive = true) :
    jSignal s i = true ∨ wfiStall s = true := by
  have hw : nextWfiActive s i = true := hw
  cases hr : wfiResumePending s
  · cases hq : (exOut s i).wfiInstruction
    · right
      simpa [nextWfiActive, wfiStall, hr, hq] using hw
    · left
      unfold exOut at hq
      rw [executionUnit_wfi, Bool.and_eq_true] at hq
      simp only [ExecutionUnit.legalWfi, ExecutionUnit.reachesOpcode, Bool.and_eq_true,
        beq_iff_eq, Bool.not_eq_true'] at hq
      obtain ⟨⟨⟨ha, hp⟩, ht⟩, ⟨hop, hid⟩, hl⟩ := hq
      have hj : (exOut s i).jumpSignal = true := by
        have hu : ExecutionUnit.ungated (exIn s i) = ExecutionUnit.executeSystem (exIn s i) := by
          unfold ExecutionUnit.ungated
          rw [hp, ht, ExecutionUnit.executeOpcode_of_system _ hop]
          simp [hid]
        unfold exOut executionUnit
        rw [hu, ha]
        simp [ExecutionUnit.executeSystem, hid, hl, ExecutionUnit.gate, ExecutionUnit.reportInstr,
          ExecutionUnit.redirect]
      rw [jSignal, hj, Bool.or_true]
  · simp [nextWfiActive, hr] at hw

/-- A front end that moves without a redirect leaves the sleep flag down. -/
theorem not_wfiActive_next (hj : jSignal s i = false) (hh : pipelineHold s i = false) :
    (next s i).wfiActive = false := by
  by_contra hw
  rcases wfiStall_of_next (Bool.eq_true_of_not_eq_false hw) with hj' | ha
  · exact Bool.false_ne_true (hj.symm.trans hj')
  · exact Bool.false_ne_true (hh.symm.trans (pipelineHold_of_wfiStall ha))

/-- Held: nothing leaves and nothing moves. -/
theorem FrontInv.next_of_hold {programPc : Word} (h : FrontInv s programPc)
    (hj : jSignal s i = false) (hpc : (next s i).pc = s.pc) (hid : (next s i).ifId = s.ifId)
    (hh : pipelineHold s i = true)
    (hex : (next s i).idEx = { s.idEx with
      rs1Value := ExecutionUnit.rs1Value (exIn s i)
      rs2Value := ExecutionUnit.rs2Value (exIn s i) }) :
    FrontInv (next s i) (nextProgramPc s i programPc) := by
  have hi : issues s i = false := h.issues_of_hold hh
  have hnp : nextProgramPc s i programPc = programPc := by simp [nextProgramPc, hj, hi]
  rw [hnp]
  refine ⟨?_, ?_, ?_, ?_, ?_, ?_, ?_⟩
  · rw [hex]; exact h.ex
  · rw [hid, hex]; exact h.id
  · rw [hpc, hid, hex]; exact h.pc
  · rw [hex]; exact h.exDec
  · rw [hex]; exact h.exBubble
  · rw [hid]; exact h.idBubble
  · intro hw
    rw [hid, hex]
    rcases wfiStall_of_next hw with hj' | ha
    · exact absurd (hj.symm.trans hj') Bool.false_ne_true
    · exact h.asleep (wfiActive_of_wfiStall ha)

/-- Load-use: the load leaves EX and a bubble follows it. -/
theorem FrontInv.next_of_loadUse {programPc : Word} (h : FrontInv s programPc)
    (hj : jSignal s i = false) (hpc : (next s i).pc = s.pc) (hid : (next s i).ifId = s.ifId)
    (hh : pipelineHold s i = false) (hz : hazardStall s = true)
    (hex : (next s i).idEx = IdEx.bubble s.ifId.pc) :
    FrontInv (next s i) (nextProgramPc s i programPc) := by
  have hi : issues s i = s.idEx.instrValid := issues_of_not_hold hj hh
  -- A bubble is no load, so an instruction is in EX.
  have hload : s.idEx.instrValid = true := by
    by_contra hv
    obtain ⟨-, hid', -⟩ := (h.exBubble (Bool.eq_false_of_not_eq_true hv)).facts
    simp [hazardStall, loadUseDetector, hid', InstrId.isLoad, InstrId.isPlainLoad,
      InstrId.isAmo] at hz
  have hnp : nextProgramPc s i programPc = programPc + 4#32 := by
    simp [nextProgramPc, hj, hi, hload]
  rw [hnp]
  refine ⟨?_, ?_, ?_, ?_, ?_, ?_, ?_⟩
  · rw [hex]; exact nofun
  · intro hv
    rw [hid] at hv
    simpa [hid, hex, IdEx.bubble, hload] using h.id hv
  · have := h.pc
    rw [hload] at this
    rw [hpc, hid, hex, this]
    simp [IdEx.bubble]
  · rw [hex]; exact nofun
  · rw [hex]; exact fun _ => .inl rfl
  · rw [hid]; exact h.idBubble
  · exact fun hw => absurd ((not_wfiActive_next hj hh).symm.trans hw) Bool.false_ne_true

/-- IF/ID moves into EX, and a fetched word or a bubble into IF/ID. -/
theorem FrontInv.next_of_move {programPc : Word} (h : FrontInv s programPc)
    (hj : jSignal s i = false) (hh : pipelineHold s i = false) (hex : (next s i).idEx = decodeOut s)
    (hfetch : (fetchWait s i = true ∧ (next s i).pc = s.pc ∧
        (next s i).ifId = ⟨s.pc, nopInstr, false, false⟩) ∨
      (fetchWait s i = false ∧ (next s i).pc = s.pc + 4#32 ∧
        (next s i).ifId = ⟨s.pc, i.instrIn, true, i.instrPageFaultIn⟩)) :
    FrontInv (next s i) (nextProgramPc s i programPc) := by
  have hi : issues s i = s.idEx.instrValid := issues_of_not_hold hj hh
  have hnp : nextProgramPc s i programPc =
      if s.idEx.instrValid then programPc + 4#32 else programPc := by
    simp only [nextProgramPc, hj, hi, Bool.false_eq_true, if_false]
  have hidpc := h.id
  rw [← hnp] at hidpc
  -- The PC is one instruction behind IF/ID, if there is one.
  have hpcEq : s.pc = nextProgramPc s i programPc +
      (if s.ifId.instructionValid then 4#32 else 0#32) := by
    rw [hnp, h.pc]
    cases s.idEx.instrValid <;> simp
  have hexv : (RiscvCpu.next s i).idEx.instrValid = s.ifId.instructionValid := by
    rw [hex]; rfl
  have hbubble : s.ifId.instructionValid = false → (decodeOut s).dec.IsBubble := by
    intro hv
    right
    change decoder s.ifId.instruction = _
    rw [h.idBubble hv]
  refine ⟨?_, ?_, ?_, ?_, ?_, ?_, ?_⟩
  · rw [hex]; exact hidpc
  · rw [hexv]
    rcases hfetch with ⟨-, -, hifId⟩ | ⟨-, -, hifId⟩
    · rw [hifId]; exact nofun
    · rw [hifId]
      intro _
      rw [hpcEq]
      cases s.ifId.instructionValid <;> simp
  · rw [hexv]
    rcases hfetch with ⟨-, hpc, hifId⟩ | ⟨-, hpc, hifId⟩
    · rw [hpc, hifId, hpcEq]
      simp
    · rw [hpc, hifId, hpcEq]
      simp
  · rw [hex]; exact fun _ => rfl
  · rw [hex]; exact hbubble
  · rcases hfetch with ⟨-, -, hifId⟩ | ⟨-, -, hifId⟩
    · rw [hifId]; exact fun _ => rfl
    · rw [hifId]; exact nofun
  · exact fun hw => absurd ((not_wfiActive_next hj hh).symm.trans hw) Bool.false_ne_true

/-- **Step.** The front end goes on holding consecutive instructions. -/
theorem FrontInv.next {programPc : Word} (h : FrontInv s programPc) :
    FrontInv (next s i) (nextProgramPc s i programPc) := by
  rcases front_cases s i with ⟨hj, hpc, hid, hex⟩ | ⟨hj, hpc, hid, hh, hex⟩ |
    ⟨hj, hpc, hid, hh, hz, hex⟩ | ⟨hj, hh, -, hex, hfetch⟩
  · -- A redirect leaves an instruction nowhere but at the PC.
    have hnp : nextProgramPc s i programPc = jump s i := by rw [nextProgramPc, if_pos hj]
    constructor <;> simp [hpc, hid, hex, hnp, IdEx.bubble, Decoded.IsBubble]
  · exact h.next_of_hold hj hpc hid hh hex
  · exact h.next_of_loadUse hj hpc hid hh hz hex
  · exact h.next_of_move hj hh hex hfetch

end RiscvCpu

end Synapse32
