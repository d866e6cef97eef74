import Synapse32.Rtl.InstrDefines

/-! # UART

`rtl/core_modules/uart.v`: a 16550 with a transmit and a receive FIFO of 16 bytes. The registers
are grouped by the part of the `always` block that assigns them. Reset is not an input: a run starts
from the registers that reset leaves, with anything in the two memories. -/

namespace Synapse32

/-- The states of the transmitter. -/
inductive TxState
  | idle | start | data | stop
  deriving DecidableEq, Repr

/-- The states of the receiver. -/
inductive RxState
  | idle | start | data | stop
  deriving DecidableEq, Repr

/-- The registers of the transmitter. -/
structure UartTx where
  data : BitVec 8
  busy : Bool
  startPending : Bool
  state : TxState
  bitCount : BitVec 4
  out : Bool
  fifo : BitVec 4 → BitVec 8
  fifoHead : BitVec 4
  fifoTail : BitVec 4
  fifoCount : BitVec 5

/-- The registers of the receiver. -/
structure UartRx where
  state : RxState
  shift : BitVec 8
  bitCount : BitVec 3
  tickCount : BitVec 4
  rxMeta : Bool
  rxSync : Bool
  rbr : BitVec 8
  oe : Bool
  fifo : BitVec 4 → BitVec 8
  fifoHead : BitVec 4
  fifoTail : BitVec 4
  fifoCount : BitVec 5

/-- The registers of `uart.v`. -/
structure Uart where
  lcr : BitVec 8
  ier : BitVec 8
  fcr : BitVec 8
  scr : BitVec 8
  dll : BitVec 8
  dlh : BitVec 8
  baudTickCounter : BitVec 16
  baudDiv : BitVec 16
  txTickCount : BitVec 4
  tx : UartTx
  rx : UartRx
  threIrq : Bool
  txThrePrev : Bool

/-- What the two FIFO memories hold at power-on, which no reset clears. -/
structure UartPowerOn where
  txFifo : BitVec 4 → BitVec 8
  rxFifo : BitVec 4 → BitVec 8

/-- The inputs of `uart.v` in one cycle. -/
structure UartIn where
  addr : Word
  writeData : Word
  writeEnable : Bool
  readEnable : Bool
  rx : Bool

namespace Uart

/-- The registers after reset. -/
def reset (m : UartPowerOn) : Uart where
  lcr := 0#8
  ier := 0#8
  fcr := 0#8
  scr := 0#8
  dll := 1#8
  dlh := 0#8
  baudTickCounter := 0#16
  baudDiv := 1#16
  txTickCount := 0#4
  tx :=
    { data := 0#8, busy := false, startPending := false, state := .idle, bitCount := 0#4
      out := true, fifo := m.txFifo, fifoHead := 0#4, fifoTail := 0#4, fifoCount := 0#5 }
  rx :=
    { state := .idle, shift := 0#8, bitCount := 0#3, tickCount := 0#4, rxMeta := true
      rxSync := true, rbr := 0#8, oe := false, fifo := m.rxFifo, fifoHead := 0#4, fifoTail := 0#4
      fifoCount := 0#5 }
  threIrq := false
  txThrePrev := true

variable (s : Uart) (i : UartIn)

/-! ## Wires -/

/-- `uart_valid`. -/
def uartValid : Bool := 0x20000000#32 ≤ i.addr && i.addr ≤ 0x2000001C#32

/-- `reg_sel`. -/
def regSel : BitVec 3 := i.addr.extractLsb' 2 3

/-- The bus writes register `r`. -/
def writes (r : BitVec 3) : Bool := i.writeEnable && uartValid i && regSel i == r

/-- The bus reads register `r`. -/
def reads (r : BitVec 3) : Bool := i.readEnable && uartValid i && regSel i == r

/-- `write_data[7:0]`. -/
def writeByte : BitVec 8 := i.writeData.extractLsb' 0 8

/-- `dlab`. -/
def dlab : Bool := s.lcr.getLsbD 7

/-- `fifo_enabled`. -/
def fifoEnabled : Bool := s.fcr.getLsbD 0

/-- `baud_tick`. -/
def baudTick : Bool := s.baudTickCounter == 0#16

/-- `tx_bit_tick`. -/
def txBitTick : Bool := baudTick s && s.txTickCount == 15#4

/-- `tx_fifo_empty`. -/
def txFifoEmpty : Bool := s.tx.fifoCount == 0#5

/-- `tx_fifo_full`. -/
def txFifoFull : Bool := s.tx.fifoCount == 16#5

/-- `tx_temt`. -/
def txTemt : Bool := !s.tx.busy && !s.tx.startPending && txFifoEmpty s

/-- `tx_thre`. -/
def txThre : Bool := if fifoEnabled s then txFifoEmpty s else !s.tx.busy && !s.tx.startPending

/-- `rx_dr`. -/
def rxDr : Bool := s.rx.fifoCount != 0#5

/-- `rx_fifo_full`. -/
def rxFifoFull : Bool := s.rx.fifoCount == 16#5

/-- `rx_fifo_data`. -/
def rxFifoData : BitVec 8 := s.rx.fifo s.rx.fifoHead

/-- `rx_fifo_pop_request`. -/
def rxFifoPopRequest : Bool := reads i 0#3 && !dlab s && rxDr s

/-- `rx_fifo_clear_request`. -/
def rxFifoClearRequest : Bool := writes i 2#3 && i.writeData.getLsbD 1

/-- `lsr`: TEMT, THRE, OE and DR in bits 6, 5, 1 and 0. -/
def lsr : BitVec 8 :=
  0#1 ++ BitVec.ofBool (txTemt s) ++ BitVec.ofBool (txThre s) ++ 0#3 ++ BitVec.ofBool s.rx.oe ++
    BitVec.ofBool (rxDr s)

/-- `rx_irq_pending`. -/
def rxIrqPending : Bool := s.ier.getLsbD 0 && rxDr s

/-- `thre_irq_set`. -/
def threIrqSet : Bool := txThre s && !s.txThrePrev

/-- A write to the transmit holding register. -/
def thrWrite : Bool := writes i 0#3 && !dlab s

/-- `thre_irq_clear`. -/
def threIrqClear : Bool := (reads i 2#3 && !rxIrqPending s) || thrWrite s i

/-- `thre_irq_pending`. -/
def threIrqPending : Bool := s.ier.getLsbD 1 && s.threIrq

/-- `interrupt`. -/
def interrupt : Bool := rxIrqPending s || threIrqPending s

/-- `iir`. -/
def iir : BitVec 8 :=
  if rxIrqPending s then if fifoEnabled s then 0xC4#8 else 0x04#8
  else if threIrqPending s then if fifoEnabled s then 0xC2#8 else 0x02#8
  else if fifoEnabled s then 0xC1#8 else 0x01#8

/-! ## Transmitter -/

/-- The transmitter's state machine, which moves on a bit tick. -/
def txFsm : UartTx :=
  if txBitTick s then
    match s.tx.state with
    | .idle =>
      -- The held byte goes before the FIFO.
      if s.tx.startPending then
        { s.tx with state := .start, out := false, bitCount := 0#4, startPending := false }
      else if !txFifoEmpty s then
        { s.tx with
          data := s.tx.fifo s.tx.fifoHead, fifoHead := s.tx.fifoHead + 1#4
          state := .start, out := false, bitCount := 0#4, busy := true }
      else { s.tx with out := true }
    | .start => { s.tx with state := .data, out := s.tx.data.getLsbD 0, bitCount := 1#4 }
    | .data =>
      if s.tx.bitCount < 8#4 then
        { s.tx with
          out := s.tx.data.getLsbD (s.tx.bitCount.extractLsb' 0 3).toNat
          bitCount := s.tx.bitCount + 1#4 }
      else { s.tx with state := .stop, out := true }
    -- Behind a stop bit only the FIFO is looked at.
    | .stop =>
      if !txFifoEmpty s then
        { s.tx with
          data := s.tx.fifo s.tx.fifoHead, fifoHead := s.tx.fifoHead + 1#4
          state := .start, out := false, bitCount := 0#4 }
      else { s.tx with state := .idle, busy := false }
  else s.tx

/-- `tx_fifo_popped`. -/
def txFifoPopped : Bool :=
  txBitTick s && !txFifoEmpty s &&
    ((s.tx.state == .idle && !s.tx.startPending) || s.tx.state == .stop)

/-- `tx_fifo_pushed`. -/
def txFifoPushed : Bool := thrWrite s i && fifoEnabled s && !txFifoFull s

/-- `tx_fifo_cleared`. -/
def txFifoCleared : Bool := writes i 2#3 && i.writeData.getLsbD 2

/-- A write of the holding register that is taken without the FIFO. -/
def holdingTaken : Bool :=
  thrWrite s i && !fifoEnabled s && !s.tx.busy && !s.tx.startPending

/-- The register writes that reach the transmitter, over what its state machine leaves. -/
def txWrite (t : UartTx) : UartTx :=
  if txFifoPushed s i then
    { t with
      fifo := Function.update t.fifo s.tx.fifoTail (writeByte i)
      fifoTail := s.tx.fifoTail + 1#4 }
  else if holdingTaken s i then
    { t with data := writeByte i, startPending := true, busy := true }
  -- A held byte that has not started goes with the FIFO.
  else if txFifoCleared i then
    if s.tx.startPending && s.tx.state == .idle then
      { t with fifoHead := 0#4, fifoTail := 0#4, startPending := false, busy := false }
    else { t with fifoHead := 0#4, fifoTail := 0#4 }
  else t

/-- `tx_fifo_count` after the edge. -/
def txFifoCountNext : BitVec 5 :=
  if txFifoCleared i then 0#5
  else if txFifoPushed s i && !txFifoPopped s then s.tx.fifoCount + 1#5
  else if !txFifoPushed s i && txFifoPopped s then s.tx.fifoCount - 1#5
  else s.tx.fifoCount

/-! ## Receiver -/

/-- The FCR write that clears the receive FIFO. -/
def rxClear : UartRx :=
  if rxFifoClearRequest i then { s.rx with fifoHead := 0#4, fifoTail := 0#4, oe := false }
  else s.rx

/-- The receiver samples a stop bit. -/
def rxStopTick : Bool := s.rx.state == .stop && s.rx.tickCount == 15#4 && baudTick s

/-- A byte with a valid stop bit arrives. -/
def rxArrives : Bool := rxStopTick s && s.rx.rxSync

/-- `rx_fifo_pushed`. -/
def rxFifoPushed : Bool :=
  rxArrives s && !rxFifoClearRequest i && !(rxFifoFull s && !rxFifoPopRequest s i)

/-- `rx_shift` with one bit replaced. -/
def setShift (shift : BitVec 8) (k : ℕ) (b : Bool) : BitVec 8 :=
  if b then shift ||| (1#8 <<< k) else shift &&& ~~~(1#8 <<< k)

/-- The receiver's state machine, over what the register writes leave. -/
def rxFsm (t : UartRx) : UartRx :=
  match s.rx.state with
  | .idle =>
    if baudTick s && !s.rx.rxSync then { t with tickCount := 0#4, state := .start } else t
  | .start =>
    if baudTick s && s.rx.tickCount != 6#4 then { t with tickCount := s.rx.tickCount + 1#4 }
    else if baudTick s then
      -- A line that is high again in the middle of the start bit was noise.
      if !s.rx.rxSync then
        { t with tickCount := 0#4, state := .data, bitCount := 0#3, shift := 0#8 }
      else { t with state := .idle }
    else t
  | .data =>
    if baudTick s && s.rx.tickCount != 15#4 then { t with tickCount := s.rx.tickCount + 1#4 }
    else if baudTick s then
      let t :=
        { t with
          tickCount := 0#4
          shift := setShift s.rx.shift s.rx.bitCount.toNat s.rx.rxSync }
      if s.rx.bitCount == 7#3 then { t with state := .stop }
      else { t with bitCount := s.rx.bitCount + 1#3 }
    else t
  | .stop =>
    if baudTick s && s.rx.tickCount != 15#4 then { t with tickCount := s.rx.tickCount + 1#4 }
    else if baudTick s then
      let t :=
        -- Without a valid stop bit the byte is dropped.
        if s.rx.rxSync && !rxFifoClearRequest i then
          -- A pop in the same cycle makes room.
          if rxFifoFull s && !rxFifoPopRequest s i then { t with oe := true }
          else
            { t with
              fifo := Function.update t.fifo s.rx.fifoTail s.rx.shift
              fifoTail := s.rx.fifoTail + 1#4
              rbr := s.rx.shift }
        else t
      { t with state := .idle }
    else t

/-- `rx_fifo_head` after the edge, over what the register writes leave. -/
def rxFifoHeadNext (t : UartRx) : BitVec 4 :=
  if rxFifoPopRequest s i then s.rx.fifoHead + 1#4 else t.fifoHead

/-- `rx_fifo_count` after the edge. -/
def rxFifoCountNext : BitVec 5 :=
  if rxFifoClearRequest i then 0#5
  else if rxFifoPushed s i && !rxFifoPopRequest s i then s.rx.fifoCount + 1#5
  else if !rxFifoPushed s i && rxFifoPopRequest s i then s.rx.fifoCount - 1#5
  else s.rx.fifoCount

/-! ## The clock edge -/

/-- The clock edge of `uart.v`. A later assignment of the block wins: the register writes come
behind the transmitter's state machine, the receiver behind both. -/
def next : Uart where
  lcr := if writes i 3#3 then writeByte i else s.lcr
  ier := if writes i 1#3 && !dlab s then writeByte i else s.ier
  fcr := if writes i 2#3 then writeByte i else s.fcr
  scr := if writes i 7#3 then writeByte i else s.scr
  dll := if writes i 0#3 && dlab s then writeByte i else s.dll
  dlh := if writes i 1#3 && dlab s then writeByte i else s.dlh
  baudTickCounter :=
    if baudTick s then if 1#16 < s.baudDiv then s.baudDiv - 1#16 else 0#16
    else s.baudTickCounter - 1#16
  -- The divisor is taken over when DLAB falls.
  baudDiv :=
    if writes i 3#3 && dlab s && !i.writeData.getLsbD 7 then s.dlh ++ s.dll else s.baudDiv
  txTickCount := if baudTick s then s.txTickCount + 1#4 else s.txTickCount
  tx := { txWrite s i (txFsm s) with fifoCount := txFifoCountNext s i }
  rx :=
    { rxFsm s i (rxClear s i) with
      rxMeta := i.rx
      rxSync := s.rx.rxMeta
      fifoHead := rxFifoHeadNext s i (rxFsm s i (rxClear s i))
      fifoCount := rxFifoCountNext s i }
  threIrq := if threIrqClear s i then false else if threIrqSet s then true else s.threIrq
  txThrePrev := txThre s

/-! ## Reads -/

/-- `read_data`. -/
def readData : Word :=
  if i.readEnable && uartValid i then
    match (regSel i).toNat with
    | 0 => (if dlab s then s.dll else if rxDr s then rxFifoData s else s.rx.rbr).setWidth 32
    | 1 => (if dlab s then s.dlh else s.ier).setWidth 32
    | 2 => (iir s).setWidth 32
    | 3 => s.lcr.setWidth 32
    | 5 => (lsr s).setWidth 32
    | 7 => s.scr.setWidth 32
    | _ => 0#32
  else 0#32

end Uart

end Synapse32
