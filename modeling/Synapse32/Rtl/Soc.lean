import Synapse32.Rtl.Top
import Synapse32.Rtl.Timer
import Synapse32.Rtl.Uart
import Synapse32.Rtl.Plic

/-! # The SoC with its devices

The rest of `rtl/top.v`: the timer, the UART and the interrupt controller behind the data adapter,
and the lines from them to the core. What is left outside are the pins. -/

namespace Synapse32

/-- `NUM_SOURCES` of the interrupt controller: source 1 is the UART, source 2 the pin. -/
def socSources : NumSources := ⟨2, Nat.le_succ 1, Nat.le_add_right 2 29⟩

/-- The registers of `top.v` and of all modules it instantiates. -/
structure Soc where
  top : Top
  timer : Timer
  uart : Uart
  plic : Plic socSources

/-- The input pins of `top.v`. -/
structure SocPins where
  softwareInterrupt : Bool
  externalInterrupt : Bool
  uartRx : Bool

namespace Soc

/-- The registers after reset. -/
def reset (m : PowerOn) (u : UartPowerOn) : Soc where
  top := Top.reset m
  timer := Timer.reset
  uart := Uart.reset u
  plic := Plic.reset

variable (P : TopParams) (s : Soc) (p : SocPins)

/-! ## Lines from the devices -/

/-- What the devices present apart from read data, which comes later: what goes to the storage side
does not depend on it. -/
def lines : TopIn where
  deviceData := 0#32
  timerInterrupt := Timer.timerInterrupt s.timer
  machineSoftwareInterrupt := s.timer.msip || p.softwareInterrupt
  machineExternalInterrupt := Plic.machineExternalInterrupt s.plic
  supervisorExternalInterrupt := Plic.supervisorExternalInterrupt s.plic
  mtime := s.timer.mtime

/-! ## The bus to the devices -/

/-- The data side's inputs in the cycle. -/
def dataRequest : DataIn := Top.dataRequest s.top (lines s p)

/-- `data_store_addr` and its companions. -/
def dataStore : StoreReq := DataBus.dataStore P.bus s.top.bus (dataRequest s p)

/-- `data_write_fire`. -/
def dataWriteFire : Bool := DataBus.dataWriteFire P.bus s.top.bus (dataRequest s p)

/-- `data_read_fire`. -/
def dataReadFire : Bool := DataBus.dataReadFire P.bus s.top.bus (dataRequest s p)

/-- `timer_access`. -/
def timerAccess : Bool := isTimerMem (dataStore P s p).addr

/-- `uart_access`. -/
def uartAccess : Bool := isUartMem (dataStore P s p).addr

/-- `plic_access`. -/
def plicAccess : Bool := isPlicMem (dataStore P s p).addr

/-- The ports of the timer. -/
def timerIn : TimerIn where
  addr := (dataStore P s p).addr
  writeData := (dataStore P s p).wdata
  writeEnable := dataWriteFire P s p && timerAccess P s p
  readEnable := dataReadFire P s p && timerAccess P s p

/-- The ports of the UART. -/
def uartIn : UartIn where
  addr := (dataStore P s p).addr
  writeData := (dataStore P s p).wdata
  writeEnable := dataWriteFire P s p && uartAccess P s p
  readEnable := dataReadFire P s p && uartAccess P s p
  rx := p.uartRx

/-- `source_irq`: the UART is source 1, the pin source 2. -/
def sourceIrq (j : Source socSources) : Bool :=
  if j.val = 0 then Uart.interrupt s.uart else p.externalInterrupt

/-- The ports of the interrupt controller. -/
def plicIn : PlicIn socSources where
  addr := (dataStore P s p).addr
  writeData := (dataStore P s p).wdata
  writeEnable := dataWriteFire P s p && plicAccess P s p
  readEnable := dataReadFire P s p && plicAccess P s p
  sourceIrq := sourceIrq s p

/-- The devices' part of `mem_read_data`. -/
def deviceData : Word :=
  if timerAccess P s p then Timer.readData s.timer (timerIn P s p)
  else if uartAccess P s p then Uart.readData s.uart (uartIn P s p)
  else if plicAccess P s p then Plic.readData s.plic (plicIn P s p)
  else 0#32

/-- What the devices present in a cycle. -/
def topIn : TopIn := { lines s p with deviceData := deviceData P s p }

/-! ## The clock edge -/

/-- The clock edge of `top.v`. -/
def next : Soc where
  top := Top.next P s.top (topIn P s p)
  timer := Timer.next s.timer (timerIn P s p)
  uart := Uart.next s.uart (uartIn P s p)
  plic := Plic.next s.plic (plicIn P s p)

/-- `uart_tx`. -/
def uartTx : Bool := s.uart.tx.out

/-- The SoC before cycle `n`, from reset, under a stream of pin levels. -/
def run (m : PowerOn) (u : UartPowerOn) (pins : ℕ → SocPins) (n : ℕ) : Soc :=
  Clocked.run (next P) (reset m u) pins n

end Soc

end Synapse32
