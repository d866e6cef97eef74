import Synapse32.Soc.Closed
import Synapse32.Soc.Execution

/-! # Programs that print

A program in the RAM sets up the UART and stores a text to it. All the way down, from the
instructions of the program to the pin, the SoC sends this text: the whole waveform of the pin is
that of the text's bytes in 8N1 frames. -/

namespace Synapse32

open Uart (PrintJob RegWrite tickPeriod)
open SerialLine

namespace SeqRun

variable {code : Word → Word} (r : SeqRun code)

/-- The register writes of the UART among what the first `k` instructions access. -/
def uartWrites (k : ℕ) : List RegWrite :=
  (deviceEvents (r.accesses k)).flatMap DeviceEvent.uartWrite

end SeqRun

namespace Soc

section Program

variable {P : TopParams} {m : PowerOn} {u : UartPowerOn} {pins : ℕ → SocPins}
  {r : SeqRun m.mem.fetch} (hr : RamProgram m r)
include hr

/-- **What the UART has been written is what the program has written to it**, up to the last
access. -/
theorem writeLog_prefix {k : ℕ} (hk : r.AccessesDone k) (n : ℕ) :
    Uart.writeLog (uartIns P m u pins) n <+: r.uartWrites k := by
  obtain ⟨j, -, hj⟩ := Top.logs_of_program P (topIns P m u pins) hr n
  have hpre : RiscvCpu.accessLog RiscvCpu.reset (Top.cpuIns P m (topIns P m u pins)) n <+:
      r.accesses k := by
    have hmax := hj.trans (r.accesses_mono (Nat.le_max_right k j))
    rwa [hk.accesses_eq (Nat.le_max_left k j)] at hmax
  have hlog : Top.deviceLog P m (topIns P m u pins) n ++ _ = _ := Top.deviceLog_of_program hr n
  rw [writeLog_uartIns, SeqRun.uartWrites]
  refine List.IsPrefix.flatMap ?_ _
  refine (List.prefix_append _ (DataBus.pending (Top.run P m (topIns P m u pins) n).bus)).trans ?_
  rw [hlog]
  exact hpre.flatMap _

/-- In the end it has been written all of it. -/
theorem exists_writeLog (hm : P.bus.memLatency ≤ 256) (hf : P.fetchLatency ≤ 256) {k : ℕ}
    (hk : r.AccessesDone k) : ∃ n, Uart.writeLog (uartIns P m u pins) n = r.uartWrites k := by
  obtain ⟨n, hn⟩ : ∃ n0, ∀ n ≥ n0, Top.deviceLog P m (topIns P m u pins) n = _ :=
    Top.exists_output hr hm hf hk
  exact ⟨n, by rw [writeLog_uartIns, hn n le_rfl, SeqRun.uartWrites]⟩

end Program

/-- **The SoC prints what its program prints.** Let a program in the RAM make a last access, and let
what it stores to the UART be a print job. With latencies up to 256, for all sizes of the caches and
of the store buffer and whatever the other pins do, the transmit pin carries from reset on exactly
the bytes of the job's text, in order, each in a frame of the job's divisor, and idles in all other
cycles. -/
theorem soc_prints (P : TopParams) (u : UartPowerOn) (pins : ℕ → SocPins) {m : PowerOn}
    {r : SeqRun m.mem.fetch} (hr : RamProgram m r) (hm : P.bus.memLatency ≤ 256)
    (hf : P.fetchLatency ≤ 256) {k : ℕ} (hk : r.AccessesDone k) (job : PrintJob)
    (hjob : r.uartWrites k = job.writes) :
    ∃ frames, frames.map Prod.snd = job.text ∧
      Spaced (16 * tickPeriod job.divisor) 0 frames ∧
      ∀ n, uartTx (run P m u pins n) = line (16 * tickPeriod job.divisor) frames n := by
  have hlog : ∀ n, Uart.writeLog (uartIns P m u pins) n <+: job.writes := by
    rw [← hjob]
    exact writeLog_prefix hr hk
  have hdone : ∃ n, Uart.writeLog (uartIns P m u pins) n = job.writes := by
    rw [← hjob]
    exact exists_writeLog hr hm hf hk
  obtain ⟨frames, hbytes, hspaced, hout⟩ := Uart.job_printed u _ job hlog hdone
  refine ⟨frames, hbytes, hspaced, fun n => ?_⟩
  rw [uartTx, run_uart]
  exact hout n

/-! ## A program that prints two letters -/

/-- `lui x3, 0x20000; addi x1, x0, 1; sb x1, 8(x3); addi x1, x0, 'H'; sb x1, 0(x3);
addi x1, x0, 'i'; sb x1, 0(x3)`, and a jump to itself. -/
def printHi : ℕ → Instr
  | 0 => .lui 3#5 0x20000#20
  | 1 => .opImm .addi 1#5 0#5 1#12
  | 2 => .store .sb 3#5 1#5 8#12
  | 3 => .opImm .addi 1#5 0#5 0x48#12
  | 4 => .store .sb 3#5 1#5 0#12
  | 5 => .opImm .addi 1#5 0#5 0x69#12
  | 6 => .store .sb 3#5 1#5 0#12
  | _ => .jal 0#5 0#20

/-- What its instructions do. -/
def printHiOutcome : ℕ → Outcome
  | 0 => ⟨0x80000004#32, 3#5, 0x20000000#32, [], none⟩
  | 1 => ⟨0x80000008#32, 1#5, 1#32, [], none⟩
  | 2 => ⟨0x8000000c#32, 0#5, 0#32, [.write 0x20000008#32 0b0001#4 1#32], none⟩
  | 3 => ⟨0x80000010#32, 1#5, 0x48#32, [], none⟩
  | 4 => ⟨0x80000014#32, 0#5, 0#32, [.write 0x20000000#32 0b0001#4 0x48#32], none⟩
  | 5 => ⟨0x80000018#32, 1#5, 0x69#32, [], none⟩
  | 6 => ⟨0x8000001c#32, 0#5, 0#32, [.write 0x20000000#32 0b0001#4 0x69#32], none⟩
  | _ => ⟨0x8000001c#32, 0#5, 0x80000020#32, [], none⟩

/-- The RAM with the program at its start. -/
def printHiOn : PowerOn := Top.zeroOn fun w => (printHi w).encode

/-- The hart before each instruction. -/
def printHiHart : ℕ → Hart
  | 0 => ⟨0x80000000#32, fun _ => 0#32, ByteLanes.bytes printHiOn.mem.words, none⟩
  | k + 1 => (printHiHart k).after (printHiOutcome k)

/-- The jump stays where it is. -/
theorem printHiHart_pc (k : ℕ) : (printHiHart (k + 7)).pc = 0x8000001c#32 := by
  cases k <;> rfl

/-- The program, one instruction at a time. -/
def printHiRun : SeqRun printHiOn.mem.fetch where
  hart := printHiHart
  instr := printHi
  outcome := printHiOutcome
  fetch k := by
    match k with
    | 0 | 1 | 2 | 3 | 4 | 5 | 6 => rfl
    | k + 7 =>
      rw [printHiHart_pc]
      rfl
  exec k := by
    match k with
    | 0 | 1 | 2 | 3 | 4 | 5 | 6 => rfl
    | k + 7 =>
      have hres : (printHiHart (k + 7)).reserved = none := by cases k <;> rfl
      change jumpOutcome (printHiHart (k + 7)) ((printHiHart (k + 7)).pc + _) 0#5
        ((printHiHart (k + 7)).pc + 4#32) = _
      rw [jumpOutcome, hres, printHiHart_pc]
      rfl
  after _ := rfl
  x0 := rfl

/-- It is fetched from the first ten words. -/
theorem printHi_fetches {a : Word} (h : printHiRun.Fetches a) :
    isRam a = true ∧ DcacheParams.wordAddr a ≠ DcacheParams.wordAddr 0x20000000#32 ∧
      DcacheParams.wordAddr a ≠ DcacheParams.wordAddr 0x20000008#32 := by
  obtain ⟨k, j, hj, rfl⟩ := h
  match k with
  | 0 | 1 | 2 | 3 | 4 | 5 | 6 => interval_cases j <;> decide
  | k + 7 =>
    change isRam ((printHiHart (k + 7)).pc + _) = true ∧
      DcacheParams.wordAddr ((printHiHart (k + 7)).pc + _) ≠ _ ∧
      DcacheParams.wordAddr ((printHiHart (k + 7)).pc + _) ≠ _
    rw [printHiHart_pc]
    interval_cases j <;> decide

/-- It writes the UART, and reads nothing. -/
theorem printHi_accesses {k : ℕ} {x : Access} (h : x ∈ (printHiRun.outcome k).accesses) :
    ∃ a be v, x = .write a be v ∧ (a = 0x20000000#32 ∨ a = 0x20000008#32) := by
  match k with
  | 0 | 1 | 3 | 5 => exact absurd h List.not_mem_nil
  | 2 => exact ⟨_, _, _, List.mem_singleton.mp h, .inr rfl⟩
  | 4 | 6 => exact ⟨_, _, _, List.mem_singleton.mp h, .inl rfl⟩
  | k + 7 => exact absurd h List.not_mem_nil

/-- The example program keeps to RAM and never writes its own code. -/
theorem printHi_program : RamProgram printHiOn printHiRun where
  pc := rfl
  regs := rfl
  mem := rfl
  reserved := rfl
  data k a kind v hmem := by
    obtain ⟨_, _, _, heq, -⟩ := printHi_accesses hmem
    cases heq
  text _ h := (printHi_fetches h).1
  fixed a h k addr be v hmem := by
    obtain ⟨_, _, _, heq, haddr⟩ := printHi_accesses hmem
    obtain ⟨rfl, -, -⟩ := Access.write.inj heq
    rcases haddr with rfl | rfl
    · exact (printHi_fetches h).2.1.symm
    · exact (printHi_fetches h).2.2.symm

/-- It turns the FIFO on, keeps the divisor of reset, and sends two letters. -/
def printHiJob : PrintJob where
  config := [(2#3, 1#8)]
  text := [0x48#8, 0x69#8]
  configures := rfl
  dlab := rfl
  fifo := rfl
  fits := by simp

/-- Nothing asks for attention, and nothing is received. -/
def idlePins (_ : ℕ) : SocPins := ⟨false, false, true⟩

/-- The pin of a SoC with a slow memory carries the two letters. -/
theorem soc_prints_printHi :
    ∃ frames, frames.map Prod.snd = [0x48#8, 0x69#8] ∧ Spaced 16 0 frames ∧
      ∀ n, uartTx (run Top.slowMemorySoc printHiOn ⟨fun _ => 0#8, fun _ => 0#8⟩ idlePins n) =
        line 16 frames n :=
  soc_prints Top.slowMemorySoc _ idlePins printHi_program (by decide) (by decide) (k := 7)
    (fun j hj => by
      obtain ⟨k, rfl⟩ := Nat.exists_eq_add_of_le' hj
      rfl) printHiJob rfl

end Soc

end Synapse32
