import Synapse32.Rtl.Soc
import Synapse32.Soc.Devices
import Synapse32.Uart.Printing

/-! # The closed SoC

With its devices the SoC has only pins left as inputs. The storage side runs in it as it does under
any device inputs, and each device runs as it does alone. What the devices see of the core is what
the bus hands them: the register writes at the UART are the UART's part of the device log. -/

namespace Synapse32

open Uart (RegWrite)

/-- A device access as the UART takes it: a write at its registers. -/
def DeviceEvent.uartWrite : DeviceEvent → List RegWrite
  | .read _ => []
  | .write addr _ data =>
    if 0x20000000#32 ≤ addr ∧ addr ≤ 0x2000001C#32 then
      [(addr.extractLsb' 2 3, data.extractLsb' 0 8)]
    else []

/-- The registers of the UART are in its window. -/
theorem isDevice_of_uartRegister {a : Word} (h : 0x20000000#32 ≤ a ∧ a ≤ 0x2000001C#32) :
    isUartMem a = true ∧ isDevice a = true := by
  have hmem : isUartMem a = true := by
    rw [isUartMem, Bool.and_eq_true, decide_eq_true_eq, decide_eq_true_eq]
    exact ⟨h.1, BitVec.le_trans h.2 (by decide)⟩
  exact ⟨hmem, by rw [isDevice, hmem, Bool.or_true, Bool.true_or]⟩

namespace Soc

/-! ## Each part runs as it does alone -/

section Parts

variable (P : TopParams) (m : PowerOn) (u : UartPowerOn) (pins : ℕ → SocPins)

/-- What the devices present to the rest in each cycle of a run. -/
def topIns (n : ℕ) : TopIn := topIn P (run P m u pins n) (pins n)

/-- What the UART is given in each cycle of a run. -/
def uartIns (n : ℕ) : UartIn := uartIn P (run P m u pins n) (pins n)

/-- The core and its memory run as they do behind these devices. -/
theorem run_top (n : ℕ) : (run P m u pins n).top = Top.run P m (topIns P m u pins) n := by
  induction n with
  | zero => rfl
  | succ n ih => exact congrArg (fun s => Top.next P s (topIns P m u pins n)) ih

/-- The UART runs as it does behind this core. -/
theorem run_uart (n : ℕ) : (run P m u pins n).uart = Uart.run u (uartIns P m u pins) n := by
  induction n with
  | zero => rfl
  | succ n ih => exact congrArg (fun s => Uart.next s (uartIns P m u pins n)) ih

end Parts

/-! ## Register writes of the UART -/

variable {P : TopParams} {s : Soc} {p : SocPins}

/-- **The UART sees its part of what the devices see.** -/
theorem regWrite_uartIn (h : DataBus.OwnerInv P.bus s.top.bus) :
    Uart.regWrite (uartIn P s p) =
      (DataBus.deviceFires P.bus s.top.bus (Top.dataIn P s.top (topIn P s p))).flatMap
        DeviceEvent.uartWrite := by
  set i := Top.dataIn P s.top (topIn P s p) with hi
  -- What the bus hands out does not depend on what the devices answer.
  have hstore : dataStore P s p = DataBus.dataStore P.bus s.top.bus i := rfl
  have hfire : dataWriteFire P s p = DataBus.dataWriteFire P.bus s.top.bus i := rfl
  unfold Uart.regWrite Uart.uartValid Uart.regSel Uart.writeByte
  simp only [uartIn, uartAccess, hstore, hfire]
  rw [DataBus.deviceFires_eq]
  by_cases hreg : 0x20000000#32 ≤ (DataBus.dataStore P.bus s.top.bus i).addr ∧
      (DataBus.dataStore P.bus s.top.bus i).addr ≤ 0x2000001C#32
  · obtain ⟨huart, hdev⟩ := isDevice_of_uartRegister hreg
    rw [huart, decide_eq_true hreg.1, decide_eq_true hreg.2, Bool.and_true, Bool.and_true,
      Bool.and_true]
    cases hw : DataBus.dataWriteFire P.bus s.top.bus i
    · -- Whatever the bus does is no write.
      rw [DataBus.dataWriteFire_eq] at hw
      split
      · contradiction
      split
      · rename_i hf
        rw [Bool.and_eq_true] at hf
        rw [hf.1, Bool.true_and] at hw
        rw [StoreReq.events, if_pos hdev, hw]
        rfl
      · rfl
    · have hwalk := DataBus.not_walkOwns_of_write h hw hdev
      rw [DataBus.dataWriteFire_eq, Bool.and_eq_true] at hw
      rw [hw.1, hwalk, Bool.not_false, Bool.true_and, if_pos rfl, if_pos rfl, StoreReq.events,
        if_pos hdev, hw.2, if_pos rfl, List.flatMap_singleton]
      exact (if_pos hreg).symm
  · have hnone : ∀ e ∈ (DataBus.dataStore P.bus s.top.bus i).events,
        DeviceEvent.uartWrite e = [] := by
      intro e he
      rw [StoreReq.events] at he
      split at he
      · rw [List.mem_singleton.mp he]
        split
        · exact if_neg hreg
        · rfl
      · exact absurd he List.not_mem_nil
    have hvalid : (decide (0x20000000#32 ≤ (DataBus.dataStore P.bus s.top.bus i).addr) &&
        decide ((DataBus.dataStore P.bus s.top.bus i).addr ≤ 0x2000001C#32)) = false := by
      rw [← Bool.decide_and]
      exact decide_eq_false hreg
    rw [hvalid, Bool.and_false, if_neg Bool.false_ne_true]
    split
    · exact (List.flatMap_eq_nil_iff.mpr hnone).symm
    · rfl

/-- **What the UART has been written** is its part of the device log. -/
theorem writeLog_uartIns (P : TopParams) (m : PowerOn) (u : UartPowerOn) (pins : ℕ → SocPins)
    (n : ℕ) : Uart.writeLog (uartIns P m u pins) n =
      (Top.deviceLog P m (topIns P m u pins) n).flatMap DeviceEvent.uartWrite := by
  induction n with
  | zero => rfl
  | succ n ih =>
    have howner : DataBus.OwnerInv P.bus (Top.run P m (topIns P m u pins) n).bus :=
      Top.ownerInv_run n
    rw [← run_top] at howner
    rw [Uart.writeLog_succ, ih, Top.deviceLog, Top.deviceLog, Clocked.log_succ,
      List.flatMap_append]
    have hrun : Clocked.run (Top.next P) (Top.reset m) (topIns P m u pins) n =
      (run P m u pins n).top := (run_top P m u pins n).symm
    rw [hrun]
    exact congrArg _ (regWrite_uartIn howner)

end Soc

end Synapse32
