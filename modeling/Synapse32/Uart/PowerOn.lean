import Synapse32.Uart.RxQueue

/-! # The UART and what its memories held

No reset clears the memories of the two FIFOs. A UART whose memories differ only in free cells does
the same at its ports, and its memories go on differing only in free cells. -/

namespace Synapse32

namespace Uart

/-- The UART with other memories. -/
def withMemories (s : Uart) (u : UartPowerOn) : Uart :=
  { s with tx := { s.tx with fifo := u.txFifo }, rx := { s.rx with fifo := u.rxFifo } }

/-- **The memories differ at most in free cells.** -/
structure Fits (s : Uart) (u : UartPowerOn) : Prop where
  txValid : (txRing s.tx).Valid
  rxValid : (rxRing s.rx).Valid
  tx : ((txRing s.tx).inMem u.txFifo).contents = (txRing s.tx).contents
  rx : ((rxRing s.rx).inMem u.rxFifo).contents = (rxRing s.rx).contents

/-- After reset both FIFOs are empty, so any memories fit. -/
theorem fits_reset (u u' : UartPowerOn) : Fits (reset u) u' where
  txValid := ⟨Nat.zero_le _, rfl⟩
  rxValid := ⟨Nat.zero_le _, rfl⟩
  tx := rfl
  rx := rfl

variable {s : Uart} {u : UartPowerOn} {i : UartIn}

/-- The memories after the edge. -/
def nextMemories (s : Uart) (u : UartPowerOn) (i : UartIn) : UartPowerOn where
  txFifo := (next (s.withMemories u) i).tx.fifo
  rxFifo := (next (s.withMemories u) i).rx.fifo

/-! ## Ports -/

/-- What software reads does not come from a free cell. -/
theorem readData_withMemories (h : s.Fits u) : readData (s.withMemories u) i = readData s i := by
  have hdata : (if dlab (s.withMemories u) then (s.withMemories u).dll
        else if rxDr (s.withMemories u) then rxFifoData (s.withMemories u)
        else (s.withMemories u).rx.rbr) =
      if dlab s then s.dll else if rxDr s then rxFifoData s else s.rx.rbr := by
    change (if dlab s then s.dll
      else if rxDr s then rxFifoData (s.withMemories u) else s.rx.rbr) = _
    cases hdr : rxDr s
    · rfl
    · have hhead : rxFifoData (s.withMemories u) = rxFifoData s := by
        refine RingBuffer.head_inMem h.rx (Nat.pos_of_ne_zero fun h0 => ?_)
        rw [rxDr, bne_iff_ne] at hdr
        exact hdr (BitVec.eq_of_toNat_eq h0)
      rw [hhead]
  rw [readData, hdata]
  rfl

/-! ## The edge -/

/-- A frame does not start from a free cell. -/
theorem txFsm_withMemories (h : s.Fits u) :
    txFsm (s.withMemories u) = { txFsm s with fifo := u.txFifo } := by
  have hhead : txFifoEmpty s = false → u.txFifo s.tx.fifoHead = s.tx.fifo s.tx.fifoHead := by
    intro he
    refine RingBuffer.head_inMem h.tx (Nat.pos_of_ne_zero fun h0 => ?_)
    rw [txFifoEmpty, beq_eq_false_iff_ne] at he
    exact he (BitVec.eq_of_toNat_eq h0)
  cases hb : txBitTick s
  · have hb' : txBitTick (s.withMemories u) = false := hb
    rw [txFsm, txFsm, hb, hb']
    rfl
  have hb' : txBitTick (s.withMemories u) = true := hb
  have hst' : (s.withMemories u).tx.state = s.tx.state := rfl
  rw [txFsm, txFsm, hb, hb', if_pos rfl, if_pos rfl, hst']
  cases s.tx.state
  case idle =>
    dsimp only
    change (if s.tx.startPending then _ else if !txFifoEmpty s then
      { s.tx with
        data := u.txFifo s.tx.fifoHead, fifo := u.txFifo, fifoHead := s.tx.fifoHead + 1#4
        state := .start, out := false, bitCount := 0#4, busy := true } else _) = _
    split
    · rfl
    cases he : txFifoEmpty s
    · rw [hhead he]
      rfl
    · rfl
  case start => rfl
  case data =>
    dsimp only
    change (if s.tx.bitCount < 8#4 then _ else _) = _
    split <;> rfl
  case stop =>
    dsimp only
    change (if !txFifoEmpty s then
      { s.tx with
        data := u.txFifo s.tx.fifoHead, fifo := u.txFifo, fifoHead := s.tx.fifoHead + 1#4
        state := .start, out := false, bitCount := 0#4 } else _) = _
    cases he : txFifoEmpty s
    · rw [hhead he]
      rfl
    · rfl

/-- A write to the transmitter does not look into its memory. -/
theorem txWrite_withFifo (t : UartTx) (f : BitVec 4 → BitVec 8) :
    txWrite s i { t with fifo := f } =
      { txWrite s i t with fifo := (txWrite s i { t with fifo := f }).fifo } := by
  unfold txWrite
  split
  · rfl
  split
  · rfl
  split
  · split <;> rfl
  · rfl

/-- The receiver does not look into its memory. -/
theorem rxFsm_withFifo (t : UartRx) (f : BitVec 4 → BitVec 8) :
    rxFsm s i { t with fifo := f } =
      { rxFsm s i t with fifo := (rxFsm s i { t with fifo := f }).fifo } := by
  unfold rxFsm
  cases s.rx.state <;> dsimp only <;> split_ifs <;> rfl

/-- A clear leaves the memory of the receiver. -/
theorem rxClear_withMemories :
    rxClear (s.withMemories u) i = { rxClear s i with fifo := u.rxFifo } := by
  unfold rxClear
  split <;> rfl

/-- **Step.** The other memories go along, and nothing else differs. -/
theorem next_withMemories (h : s.Fits u) :
    next (s.withMemories u) i = (next s i).withMemories (nextMemories s u i) := by
  have htx : txWrite (s.withMemories u) i (txFsm (s.withMemories u)) =
      { txWrite s i (txFsm s) with
        fifo := (txWrite (s.withMemories u) i (txFsm (s.withMemories u))).fifo } := by
    rw [txFsm_withMemories h]
    exact txWrite_withFifo _ _
  have hrx : rxFsm (s.withMemories u) i (rxClear (s.withMemories u) i) =
      { rxFsm s i (rxClear s i) with
        fifo := (rxFsm (s.withMemories u) i (rxClear (s.withMemories u) i)).fifo } := by
    rw [rxClear_withMemories]
    exact rxFsm_withFifo _ _
  unfold nextMemories
  unfold next
  rw [htx, hrx]
  rfl

/-- **Step.** -/
theorem Fits.next (h : s.Fits u) : (Uart.next s i).Fits (nextMemories s u i) where
  txValid := txRing_valid_next h.txValid
  rxValid := rxRing_valid_next h.rxValid
  tx := by
    have hring : (txRing (Uart.next s i).tx).inMem (nextMemories s u i).txFifo =
        txRing (Uart.next (s.withMemories u) i).tx := by
      rw [next_withMemories h]
      rfl
    rw [hring, txRing_next, txRing_next]
    change (if txFifoCleared i then ((txRing s.tx).inMem u.txFifo).clear
      else ((txRing s.tx).inMem u.txFifo).step (txPush s i) (txFifoPopped s)).contents = _
    split
    · rfl
    · exact RingBuffer.contents_step_inMem h.txValid (txRing_allows h.txValid) h.tx
  rx := by
    have hring : (rxRing (Uart.next s i).rx).inMem (nextMemories s u i).rxFifo =
        rxRing (Uart.next (s.withMemories u) i).rx := by
      rw [next_withMemories h]
      rfl
    rw [hring, rxRing_next, rxRing_next]
    change (if rxFifoClearRequest i then ((rxRing s.rx).inMem u.rxFifo).clear
      else ((rxRing s.rx).inMem u.rxFifo).step (rxPush s i) (rxFifoPopRequest s i)).contents = _
    split
    · rfl
    · exact RingBuffer.contents_step_inMem h.rxValid (rxRing_allows h.rxValid) h.rx

end Uart

end Synapse32
