import Synapse32.Cache.PowerOn
import Synapse32.Soc.Closed
import Synapse32.Uart.PowerOn

/-! # What the memories held

Of all that a SoC holds at power-on only the RAM matters. Whatever is in the block RAMs of the
caches, in their read registers and in the FIFO memories of the UART, which no reset clears, the SoC
goes through the same states and drives the same pin; only `eng_tag`, which the engine of the data
cache loads from the tag memory, may differ while no line is evicted. -/

namespace Synapse32

/-! ## The data side -/

namespace DataBus

/-- The data side with other contents of the cache's block RAMs. -/
def withCells (s : DataBus) (b : Dcache.Cells) : DataBus := { s with cache := s.cache.withCells b }

section Ports

variable {P : BusParams} {s : DataBus} {i : DataIn} {b : Dcache.Cells} (h : b.Fit P.cache s.cache)
include h

/-- The access on the bus is the same: a line written back comes from written cells. -/
theorem memStore_withCells : memStore P (s.withCells b) i = memStore P s i := by
  rw [memStore, memStore]
  change StoreReq.mk (Dcache.memAddr P.cache (s.cache.withCells b) _) _ _ _ = _
  rw [Dcache.memAddr_withCells h]
  rfl

/-- Grants do not depend on the contents. -/
theorem dcacheGnt_withCells : dcacheGnt P (s.withCells b) i = dcacheGnt P s i :=
  Dcache.gnt_withCells h

/-- Answers come in the same cycles. -/
theorem dcacheRvalid_withCells : dcacheRvalid P (s.withCells b) i = dcacheRvalid P s i :=
  Dcache.rvalid_withCells h

/-- What memory is given is the same. -/
theorem dataStore_withCells : dataStore P (s.withCells b) i = dataStore P s i := by
  rw [dataStore, dataStore, memStore_withCells h]
  rfl

/-- Memory is read in the same cycles. -/
theorem dataReadFire_withCells : dataReadFire P (s.withCells b) i = dataReadFire P s i := by
  rw [dataReadFire, dataReadFire, memStore_withCells h]
  rfl

/-- Memory is written in the same cycles. -/
theorem dataWriteFire_withCells : dataWriteFire P (s.withCells b) i = dataWriteFire P s i := by
  rw [dataWriteFire, dataWriteFire, memStore_withCells h]
  rfl

/-- The walk has the same accesses. -/
theorem walkOwns_withCells : walkOwns P (s.withCells b) i = walkOwns P s i := by
  rw [walkOwns, walkOwns, dcacheGnt_withCells h]
  rfl

/-- The buffer drains in the same cycles. -/
theorem drainOwns_withCells : drainOwns P (s.withCells b) i = drainOwns P s i := by
  rw [drainOwns, drainOwns, dcacheGnt_withCells h]
  rfl

/-- The same accesses are to RAM. -/
theorem ramAccess_withCells : ramAccess P (s.withCells b) i = ramAccess P s i := by
  rw [ramAccess, ramAccess, deviceAccess, deviceAccess, dataStore_withCells h]

/-- The same accesses of the bus are to RAM. -/
theorem busRamAccess_withCells : busRamAccess P (s.withCells b) i = busRamAccess P s i := by
  rw [busRamAccess, busRamAccess, drainOwns_withCells h, ramAccess_withCells h]
  rfl

/-- Memory answers with the same word. -/
theorem memReadData_withCells : memReadData P (s.withCells b) i = memReadData P s i := by
  rw [memReadData, memReadData, instrReadData, instrReadData, deviceAccess, deviceAccess,
    dataStore_withCells h, ramAccess_withCells h, busRamAccess_withCells h, walkOwns_withCells h]
  rfl

/-- The cache is given the same answer. -/
theorem memRsp_withCells : memRsp P (s.withCells b) i = memRsp P s i := by
  rw [memRsp, memRsp, memReadData_withCells h]
  rfl

/-- The core is given the same word. -/
theorem cpuDataRdata_withCells : cpuDataRdata P (s.withCells b) i = cpuDataRdata P s i := by
  rw [cpuDataRdata, cpuDataRdata, memRsp_withCells h]
  exact Dcache.rdata_withCells h

/-- The core is answered in the same cycles. -/
theorem cpuDataRvalid_withCells : cpuDataRvalid P (s.withCells b) i = cpuDataRvalid P s i := by
  rw [cpuDataRvalid, cpuDataRvalid, dcacheRvalid_withCells h, walkOwns_withCells h,
    drainOwns_withCells h]
  rfl

/-- The walk is granted in the same cycles. -/
theorem walkGnt_withCells : walkGnt P (s.withCells b) i = walkGnt P s i := by
  rw [walkGnt, walkGnt, dcacheGnt_withCells h]
  rfl

/-- The walk is answered in the same cycles. -/
theorem walkRvalid_withCells : walkRvalid P (s.withCells b) i = walkRvalid P s i := by
  rw [walkRvalid, walkRvalid, dcacheRvalid_withCells h, walkOwns_withCells h]

/-- A store has drained in the same cycles. -/
theorem drainDone_withCells : drainDone P (s.withCells b) i = drainDone P s i := by
  rw [drainDone, drainDone, dcacheRvalid_withCells h, drainOwns_withCells h]

/-- Stores enter the buffer in the same cycles. -/
theorem storeBufPush_withCells : storeBufPush P (s.withCells b) i = storeBufPush P s i := by
  rw [storeBufPush, storeBufPush, drainDone_withCells h]
  rfl

/-- Stores leave the buffer in the same cycles. -/
theorem storeBufPop_withCells : storeBufPop P (s.withCells b) i = storeBufPop P s i := by
  rw [storeBufPop, storeBufPop, drainDone_withCells h]
  rfl

/-- The buffer is drained in the same cycles. -/
theorem storeBufDrained_withCells :
    storeBufDrained P (s.withCells b) i = storeBufDrained P s i := by
  rw [storeBufDrained, storeBufDrained, storeBufPush_withCells h, storeBufPop_withCells h]
  rfl

/-- The edge, for a cache that has the same inputs. -/
theorem next_withCells : next P (s.withCells b) i =
    (next P s i).withCells (b.next P.cache s.cache (dcacheReq P s i) (memRsp P s i)) := by
  unfold next
  rw [storeBufPush_withCells h, storeBufPop_withCells h, dcacheRvalid_withCells h,
    dcacheGnt_withCells h, memRsp_withCells h, memStore_withCells h, memReadData_withCells h,
    dataWriteFire_withCells h, busRamAccess_withCells h, dataStore_withCells h]
  change DataBus.mk _ _ _ (Dcache.next P.cache (s.cache.withCells b) (dcacheReq P s i) _) _ _ = _
  rw [Dcache.next_withCells h]
  rfl

end Ports

end DataBus

/-! ## The storage side -/

namespace Top

/-- The SoC without its devices, with other contents of the caches' block RAMs. -/
def withCells (s : Top) (c : Icache.Cells) (b : Dcache.Cells) : Top :=
  { s with icache := s.icache.withCells c, bus := s.bus.withCells b }

section Ports

variable {P : TopParams} {s : Top} {d : TopIn} {c : Icache.Cells} {b : Dcache.Cells}
  (hc : c.Fit P.icache s.icache) (hb : b.Fit P.bus.cache s.bus.cache)
include hc hb

/-- **The core is given the same.** -/
theorem cpuIn_withCells : cpuIn P (s.withCells c b) d = cpuIn P s d := by
  have hrdata : Icache.rdata P.icache (s.withCells c b).icache (fetchIn P (s.withCells c b)) =
      Icache.rdata P.icache s.icache (fetchIn P s) := Icache.rdata_withCells hc
  have hgnt : Icache.gnt P.icache (s.withCells c b).icache (fetchIn P (s.withCells c b)) =
      Icache.gnt P.icache s.icache (fetchIn P s) := Icache.gnt_withCells hc
  have hrvalid : Icache.rvalid P.icache (s.withCells c b).icache (fetchIn P (s.withCells c b)) =
      Icache.rvalid P.icache s.icache (fetchIn P s) := Icache.rvalid_withCells hc
  have hdata : DataBus.cpuDataRdata P.bus (s.withCells c b).bus (dataRequest (s.withCells c b) d) =
      DataBus.cpuDataRdata P.bus s.bus (dataRequest s d) := DataBus.cpuDataRdata_withCells hb
  have hvalid : DataBus.cpuDataRvalid P.bus (s.withCells c b).bus
      (dataRequest (s.withCells c b) d) = DataBus.cpuDataRvalid P.bus s.bus (dataRequest s d) :=
    DataBus.cpuDataRvalid_withCells hb
  have hdrained : DataBus.storeBufDrained P.bus (s.withCells c b).bus
      (dataRequest (s.withCells c b) d) = DataBus.storeBufDrained P.bus s.bus (dataRequest s d) :=
    DataBus.storeBufDrained_withCells hb
  rw [cpuIn, hrdata, hgnt, hrvalid, hdata, hvalid, hdrained]
  rfl

/-- The data side is given the same. -/
theorem dataIn_withCells : dataIn P (s.withCells c b) d = dataIn P s d := by
  rw [dataIn, cpuIn_withCells hc hb]
  rfl

/-- The instruction cache is given the same. -/
theorem icacheIn_withCells : icacheIn P (s.withCells c b) d = icacheIn P s d := by
  rw [icacheIn, cpuIn_withCells hc hb]
  rfl

/-- The MMU is given the same. -/
theorem mmuIn_withCells : mmuIn P (s.withCells c b) d = mmuIn P s d := by
  have hgnt : DataBus.walkGnt P.bus (s.withCells c b).bus (dataRequest (s.withCells c b) d) =
      DataBus.walkGnt P.bus s.bus (dataRequest s d) := DataBus.walkGnt_withCells hb
  have hrvalid : DataBus.walkRvalid P.bus (s.withCells c b).bus (dataRequest (s.withCells c b) d) =
      DataBus.walkRvalid P.bus s.bus (dataRequest s d) := DataBus.walkRvalid_withCells hb
  have hdata : DataBus.cpuDataRdata P.bus (s.withCells c b).bus (dataRequest (s.withCells c b) d) =
      DataBus.cpuDataRdata P.bus s.bus (dataRequest s d) := DataBus.cpuDataRdata_withCells hb
  rw [mmuIn, cpuIn_withCells hc hb, hgnt, hrvalid, hdata]
  rfl

variable (P s d b) in
omit hc hb in
/-- The contents of the data cache after the edge. -/
def nextCells : Dcache.Cells :=
  b.next P.bus.cache s.bus.cache (DataBus.dcacheReq P.bus s.bus (dataIn P s d))
    (DataBus.memRsp P.bus s.bus (dataIn P s d))

/-- **Step.** The other contents go along, and nothing else differs. -/
theorem next_withCells : next P (s.withCells c b) d =
    (next P s d).withCells (c.next P.icache s.icache (icacheIn P s d)) (nextCells P s d b) := by
  have hicache : Icache.next P.icache (s.withCells c b).icache (icacheIn P s d) = _ :=
    Icache.next_withCells hc
  have hbus : DataBus.next P.bus (s.withCells c b).bus (dataIn P s d) = _ :=
    DataBus.next_withCells hb
  rw [next, cpuIn_withCells hc hb, mmuIn_withCells hc hb, icacheIn_withCells hc hb,
    dataIn_withCells hc hb, hicache, hbus]
  rfl

end Ports

end Top

/-! ## The closed SoC -/

namespace Soc

/-- The SoC with other contents of its memories, the RAM apart. -/
def withContents (s : Soc) (c : Icache.Cells) (b : Dcache.Cells) (u : UartPowerOn) : Soc :=
  { s with top := s.top.withCells c b, uart := s.uart.withMemories u }

/-- **The contents differ at most in cells that hold nothing.** -/
structure Fits (P : TopParams) (s : Soc) (c : Icache.Cells) (b : Dcache.Cells) (u : UartPowerOn) :
    Prop where
  icache : c.Fit P.icache s.top.icache
  dcache : b.Fit P.bus.cache s.top.bus.cache
  uart : s.uart.Fits u

variable {P : TopParams} {s : Soc} {p : SocPins} {c : Icache.Cells} {b : Dcache.Cells}
  {u : UartPowerOn}

section Ports

variable (h : Fits P s c b u)
include h

/-- The access to memory or a device is the same. -/
theorem dataStore_withContents : dataStore P (s.withContents c b u) p = dataStore P s p :=
  DataBus.dataStore_withCells h.dcache

/-- Memory and devices are read in the same cycles. -/
theorem dataReadFire_withContents :
    dataReadFire P (s.withContents c b u) p = dataReadFire P s p :=
  DataBus.dataReadFire_withCells h.dcache

/-- Memory and devices are written in the same cycles. -/
theorem dataWriteFire_withContents :
    dataWriteFire P (s.withContents c b u) p = dataWriteFire P s p :=
  DataBus.dataWriteFire_withCells h.dcache

/-- The timer is given the same. -/
theorem timerIn_withContents : timerIn P (s.withContents c b u) p = timerIn P s p := by
  rw [timerIn, timerIn, timerAccess, timerAccess, dataStore_withContents h,
    dataReadFire_withContents h, dataWriteFire_withContents h]

/-- The UART is given the same. -/
theorem uartIn_withContents : uartIn P (s.withContents c b u) p = uartIn P s p := by
  rw [uartIn, uartIn, uartAccess, uartAccess, dataStore_withContents h,
    dataReadFire_withContents h, dataWriteFire_withContents h]

/-- The interrupt controller is given the same. -/
theorem plicIn_withContents : plicIn P (s.withContents c b u) p = plicIn P s p := by
  rw [plicIn, plicIn, plicAccess, plicAccess, dataStore_withContents h,
    dataReadFire_withContents h, dataWriteFire_withContents h]
  rfl

/-- **The devices present the same.** -/
theorem topIn_withContents : topIn P (s.withContents c b u) p = topIn P s p := by
  have hread : Uart.readData (s.withContents c b u).uart (uartIn P s p) =
      Uart.readData s.uart (uartIn P s p) := Uart.readData_withMemories h.uart
  rw [topIn, topIn, deviceData, deviceData, timerIn_withContents h, uartIn_withContents h,
    plicIn_withContents h, hread, timerAccess, uartAccess, plicAccess, timerAccess, uartAccess,
    plicAccess, dataStore_withContents h]
  rfl

/-- One edge, from both. -/
theorem next_withContents : next P (s.withContents c b u) p =
    (next P s p).withContents
      (c.next P.icache s.top.icache (Top.icacheIn P s.top (topIn P s p)))
      (Top.nextCells P s.top (topIn P s p) b) (s.uart.nextMemories u (uartIn P s p)) := by
  have htop : Top.next P (s.withContents c b u).top (topIn P s p) = _ :=
    Top.next_withCells h.icache h.dcache
  have huart : Uart.next (s.withContents c b u).uart (uartIn P s p) = _ :=
    Uart.next_withMemories h.uart
  rw [next, topIn_withContents h, timerIn_withContents h, uartIn_withContents h,
    plicIn_withContents h, htop, huart]
  rfl

/-- **Step.** -/
theorem Fits.next {ram : Ram} (hI : Dcache.Inv P.bus.cache s.top.bus.cache ram) :
    Fits P (Soc.next P s p)
      (c.next P.icache s.top.icache (Top.icacheIn P s.top (topIn P s p)))
      (Top.nextCells P s.top (topIn P s p) b) (s.uart.nextMemories u (uartIn P s p)) where
  icache := h.icache.next
  dcache := h.dcache.next hI
  uart := h.uart.next

end Ports

/-! ## Runs -/

/-- The registers of the SoC, `eng_tag` of the data cache apart: its state with nothing in the
memories besides the RAM, nor in this one, which is loaded from the tag memory. -/
def registers (s : Soc) : Soc :=
  s.withContents ⟨fun _ _ => 0#32, fun _ _ => 0, fun _ => 0#32, fun _ => 0⟩
    ⟨fun _ _ => 0#32, fun _ _ => 0, fun _ => 0#32, fun _ => 0, 0⟩ ⟨fun _ => 0#8, fun _ => 0#8⟩

section Runs

variable {m m' : PowerOn} (hmem : m'.mem = m.mem) (u u' : UartPowerOn) (pins : ℕ → SocPins)
include hmem

/-- **The SoC goes on with contents that fit**, whatever it has started with. -/
theorem run_fits (n : ℕ) : ∃ c b v, Fits P (run P m u pins n) c b v ∧
    run P m' u' pins n = (run P m u pins n).withContents c b v := by
  induction n with
  | zero =>
    refine ⟨⟨m'.icacheData, m'.icacheTag, m'.icacheDataRd, m'.icacheTagRd⟩,
      ⟨m'.dcacheData, m'.dcacheTag, m'.dcacheDataRd, m'.dcacheTagRd, 0⟩, u',
      ⟨Icache.Cells.fit_reset _ _ _ _ _, Dcache.Cells.fit_reset _ _ _ _ _, Uart.fits_reset _ _⟩, ?_⟩
    change reset m' u' = (reset m u).withContents _ _ _
    rw [reset, Top.reset, hmem]
    rfl
  | succ n ih =>
    obtain ⟨c, b, v, hfit, heq⟩ := ih
    have hI : DataBus.OwnerInv P.bus (Top.run P m (topIns P m u pins) n).bus := Top.ownerInv_run n
    rw [← run_top] at hI
    refine ⟨_, _, _, hfit.next (p := pins n) hI.system.cache, ?_⟩
    have hnext := next_withContents hfit (p := pins n)
    rw [← heq] at hnext
    exact hnext

/-- The core and its memory are given the same. -/
theorem topIns_eq : topIns P m' u' pins = topIns P m u pins := by
  funext n
  obtain ⟨c, b, v, hfit, heq⟩ := run_fits (P := P) hmem u u' pins n
  rw [topIns, heq, topIn_withContents hfit]
  rfl

/-- The data side is given the same in every cycle. -/
theorem dataIns_eq :
    Top.dataIns P m' (topIns P m' u' pins) = Top.dataIns P m (topIns P m u pins) := by
  funext n
  obtain ⟨c, b, v, hfit, heq⟩ := run_fits (P := P) hmem u u' pins n
  rw [Top.dataIns, Top.dataIns, ← run_top, ← run_top, topIns_eq hmem u u' pins, heq]
  exact Top.dataIn_withCells hfit.icache hfit.dcache

/-- The writes to RAM are accepted in the same cycles. -/
theorem ramOrder_eq (n : ℕ) : Top.ramOrder P m' (topIns P m' u' pins) n =
    Top.ramOrder P m (topIns P m u pins) n := by
  induction n with
  | zero =>
    change ByteLanes.bytes m'.mem.words = ByteLanes.bytes m.mem.words
    rw [hmem]
  | succ n ih =>
    obtain ⟨c, b, v, hfit, heq⟩ := run_fits (P := P) hmem u u' pins n
    rw [Top.ramOrder, Top.ramOrder, DataBus.ramOrder, DataBus.ramOrder]
    have hpush : ∀ i, DataBus.storeBufPushReq P.bus
        (DataBus.run P.bus (Top.reset m').bus (Top.dataIns P m' (topIns P m' u' pins)) n) i =
          DataBus.storeBufPushReq P.bus
            (DataBus.run P.bus (Top.reset m).bus (Top.dataIns P m (topIns P m u pins)) n) i := by
      intro i
      rw [← Top.run_bus, ← Top.run_bus, ← run_top, ← run_top, heq]
      rfl
    have ih : DataBus.ramOrder P.bus (Top.reset m').bus (Top.dataIns P m' (topIns P m' u' pins)) n =
      DataBus.ramOrder P.bus (Top.reset m).bus (Top.dataIns P m (topIns P m u pins)) n := ih
    rw [hpush, ih, dataIns_eq hmem u u' pins]

end Runs

/-- **Only the RAM matters at power-on.** Let two SoCs hold the same RAM, and let the block RAMs of
their caches, the read registers of these and the FIFO memories of their UARTs hold anything. Under
the same pins, in every cycle of every run they agree in all registers, in the tag that the data
cache evicts while it evicts a line, drive the transmit pin alike, and stand for the same memory. -/
theorem powerOn_independent (P : TopParams) {m m' : PowerOn} (hmem : m'.mem = m.mem)
    (u u' : UartPowerOn) (pins : ℕ → SocPins) (n : ℕ) :
    (run P m' u' pins n).registers = (run P m u pins n).registers ∧
      ((run P m u pins n).top.bus.cache.eng.Evicting →
        (run P m' u' pins n).top.bus.cache.eng.tag = (run P m u pins n).top.bus.cache.eng.tag) ∧
      uartTx (run P m' u' pins n) = uartTx (run P m u pins n) ∧
      DataBus.ramMemory P.bus (run P m' u' pins n).top.bus =
        DataBus.ramMemory P.bus (run P m u pins n).top.bus := by
  obtain ⟨c, b, v, hfit, heq⟩ := run_fits (P := P) hmem u u' pins n
  refine ⟨?_, ?_, ?_, ?_⟩
  · rw [heq]
    rfl
  · intro hev
    rw [heq]
    exact hfit.dcache.evicting hev
  · rw [heq]
    rfl
  · rw [run_top, run_top, Top.ramMemory_run, Top.ramMemory_run, ramOrder_eq hmem u u' pins]

/-- A RAM behind block RAMs of ones, with the tag of line 1 in every way. -/
def onesOn (mem : UnifiedMem) : PowerOn where
  icacheData := fun _ _ => 0xFFFFFFFF#32
  icacheTag := fun _ _ => 1
  icacheDataRd := fun _ => 0xFFFFFFFF#32
  icacheTagRd := fun _ => 1
  dcacheData := fun _ _ => 0xFFFFFFFF#32
  dcacheTag := fun _ _ => 1
  dcacheDataRd := fun _ => 0xFFFFFFFF#32
  dcacheTagRd := fun _ => 1
  mem := mem

/-- Pins that change all the time. -/
def pulsingPins (n : ℕ) : SocPins := ⟨false, n % 8 == 0, n % 16 != 0⟩

/-- Memories of a UART filled with one byte. -/
def filledWith (x : BitVec 8) : UartPowerOn := ⟨fun _ => x, fun _ => x⟩

/-- `lui x1, 0x80001; sw x1, 0(x1); sw x1, 16(x1); sw x1, 32(x1); lw x2, 0(x1)`, and a jump to
itself: three lines of one set, and a load of the first. -/
def evictImage : UnifiedMem := fun w =>
  [0x800010B7#32, 0x0010A023#32, 0x0010A823#32, 0x0210A023#32, 0x0000A103#32,
    0x0000006F#32].getD w nopInstr

/-- A SoC with one way in its data cache. -/
def oneWaySoc : TopParams where
  bus := { Top.smallSoc.bus with cache := .ofValues 0 1 1 1 (by decide) }
  icache := Icache.threeWays
  fetchLatency := 0

/-- The SoC behind ones before cycle `n`. -/
def onesRun (n : ℕ) : Soc :=
  run oneWaySoc (onesOn evictImage) (filledWith 0xFF#8) pulsingPins n

/-- The SoC behind zeros before cycle `n`. -/
def zerosRun (n : ℕ) : Soc :=
  run oneWaySoc (Top.zeroOn evictImage) (filledWith 0#8) pulsingPins n

/-- The third line drives the second one out of the cache in the same way, and the load returns what
was stored. -/
theorem powerOn_independent_ones :
    (onesRun 31).registers = (zerosRun 31).registers ∧
      (onesRun 31).top.bus.cache.eng.tag = (zerosRun 31).top.bus.cache.eng.tag ∧
      DataBus.ramMemory oneWaySoc.bus (onesRun 31).top.bus =
        DataBus.ramMemory oneWaySoc.bus (zerosRun 31).top.bus ∧
      (onesRun 41).top.cpu.registerFile 2#5 = 0x80001000#32 := by
  have hmem : (onesOn evictImage).mem = (Top.zeroOn evictImage).mem := rfl
  obtain ⟨hregs, htag, -, hram⟩ := powerOn_independent oneWaySoc hmem (filledWith 0#8)
    (filledWith 0xFF#8) pulsingPins 31
  have hev : (zerosRun 31).top.bus.cache.eng.state = .evictRead := by decide +kernel
  exact ⟨hregs, htag (.inl hev), hram, by decide +kernel⟩

end Soc

end Synapse32
