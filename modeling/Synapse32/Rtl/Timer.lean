import Synapse32.Rtl.InstrDefines

/-! # Timer

`rtl/core_modules/timer.v`: the machine timer and the machine software interrupt of the CLINT
window. Reset is not an input: a run starts from the registers that reset leaves. -/

namespace Synapse32

/-- The registers of `timer.v`. -/
structure Timer where
  mtime : BitVec 64
  mtimecmp : BitVec 64
  msip : Bool

/-- The inputs of `timer.v` in one cycle. -/
structure TimerIn where
  addr : Word
  writeData : Word
  writeEnable : Bool
  readEnable : Bool

namespace Timer

/-- `MSIP`. -/
def msipAddr : Word := 0x02000000#32

/-- `MTIMECMP_LO`. -/
def mtimecmpLo : Word := 0x02004000#32

/-- `MTIMECMP_HI`. -/
def mtimecmpHi : Word := 0x02004004#32

/-- `MTIME_LO`. -/
def mtimeLo : Word := 0x0200BFF8#32

/-- `MTIME_HI`. -/
def mtimeHi : Word := 0x0200BFFC#32

/-- The registers after reset. -/
def reset : Timer := ⟨0#64, 0xFFFFFFFFFFFFFFFF#64, false⟩

variable (s : Timer) (i : TimerIn)

/-- `timer_valid`. -/
def timerValid : Bool :=
  i.addr == msipAddr || i.addr == mtimecmpLo || i.addr == mtimecmpHi || i.addr == mtimeLo ||
    i.addr == mtimeHi

/-- `timer_interrupt`. -/
def timerInterrupt : Bool := decide (s.mtimecmp ≤ s.mtime)

/-- The word `[31:0]`. -/
def lowWord (x : BitVec 64) : Word := x.extractLsb' 0 32

/-- The word `[63:32]`. -/
def highWord (x : BitVec 64) : Word := x.extractLsb' 32 32

/-- An assignment of the word `[31:0]`. -/
def setLowWord (x : BitVec 64) (w : Word) : BitVec 64 := highWord x ++ w

/-- An assignment of the word `[63:32]`. -/
def setHighWord (x : BitVec 64) (w : Word) : BitVec 64 := w ++ lowWord x

/-! ## The clock edge -/

/-- A register write to `addr`. -/
def writes (addr : Word) : Bool := i.writeEnable && timerValid i && i.addr == addr

/-- The clock edge of `timer.v`. A write to one word of `mtime` leaves the count in the other. -/
def next : Timer where
  mtime :=
    if writes i mtimeLo then setLowWord (s.mtime + 1) i.writeData
    else if writes i mtimeHi then setHighWord (s.mtime + 1) i.writeData
    else s.mtime + 1
  mtimecmp :=
    if writes i mtimecmpLo then setLowWord s.mtimecmp i.writeData
    else if writes i mtimecmpHi then setHighWord s.mtimecmp i.writeData
    else s.mtimecmp
  msip := if writes i msipAddr then i.writeData.getLsbD 0 else s.msip

/-! ## Reads -/

/-- `read_data`. -/
def readData : Word :=
  if i.readEnable && timerValid i then
    if i.addr = msipAddr then 0#31 ++ BitVec.ofBool s.msip
    else if i.addr = mtimecmpLo then lowWord s.mtimecmp
    else if i.addr = mtimecmpHi then highWord s.mtimecmp
    else if i.addr = mtimeLo then lowWord s.mtime
    else if i.addr = mtimeHi then highWord s.mtime
    else 0#32
  else 0#32

end Timer

end Synapse32
