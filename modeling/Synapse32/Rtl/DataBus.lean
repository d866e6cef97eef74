import Synapse32.Lib.Clocked
import Synapse32.Rtl.StoreBuffer
import Synapse32.Rtl.Memory

/-! # Data bus

The data side of `rtl/top.v`: the core's accesses, the store buffer and the page walker share the
data cache, behind which the adapter and the RAM sit. The core, the MMU and the devices are
inputs. -/

namespace Synapse32

/-- `MEM_LATENCY`, `STORE_BUFFER_DEPTH` and the parameters of the data cache. -/
structure BusParams where
  memLatency : ℕ
  storeBufferDepth : ℕ
  cache : DcacheParams
  depth_pos : 1 ≤ storeBufferDepth
  depth_le : storeBufferDepth ≤ 255

/-- A depth that the store buffer's count has room for. -/
def BusParams.ofDepth (memLatency storeBufferDepth : ℕ) (cache : DcacheParams)
    (h : 1 ≤ storeBufferDepth ∧ storeBufferDepth ≤ 255) : BusParams :=
  ⟨memLatency, storeBufferDepth, cache, h.1, h.2⟩

/-- The registers of the data side. -/
structure DataBus where
  buffer : StoreBuffer
  walkOwner : Bool
  drainOwner : Bool
  cache : Dcache
  adapter : MemAdapter
  mem : UnifiedMem

/-- What the core, the MMU and the devices present in a cycle. -/
structure DataIn where
  memReadEn : Bool
  memWriteEn : Bool
  loadPageFault : Bool
  storePageFault : Bool
  mmuEnable : Bool
  dataReady : Bool
  physAddr : Word
  byteEnable : BitVec 4
  writeData : Word
  loadType : BitVec 3
  nextDataAddr : Word
  cleanReq : Bool
  walkReq : Bool
  walkAddr : Word
  /-- `timer_read_data`, `uart_read_data` or `plic_read_data`, whichever is addressed. -/
  deviceData : Word

namespace DataBus

/-- The registers after reset. -/
def reset (cache : Dcache) (mem : UnifiedMem) : DataBus :=
  ⟨StoreBuffer.reset, false, false, cache, MemAdapter.reset, mem⟩

variable (P : BusParams) (s : DataBus) (i : DataIn)

/-! ## Arbitration -/

/-- `translated_data_access`. -/
def translatedDataAccess : Bool := i.mmuEnable && (i.memWriteEn || i.memReadEn)

/-- `cpu_device_access`. -/
def cpuDeviceAccess : Bool := isDevice i.physAddr

/-- `cpu_ram_access`. -/
def cpuRamAccess : Bool :=
  (translatedDataAccess i && !cpuDeviceAccess i) ||
    (!translatedDataAccess i && (isDataMem i.physAddr || isInstrMem i.physAddr))

/-- `cpu_data_req`. -/
def cpuDataReq : Bool := (i.memReadEn || i.memWriteEn) && !i.loadPageFault && !i.storePageFault

/-- `cpu_data_bus_req`. -/
def cpuDataBusReq : Bool := cpuDataReq i && i.dataReady

/-- `store_buf_push_req`. -/
def storeBufPushReq : Bool :=
  cpuDataBusReq i && i.memWriteEn && !s.buffer.full P.storeBufferDepth

/-- `cpu_load_go`. -/
def cpuLoadGo : Bool :=
  cpuDataBusReq i && !i.memWriteEn && !s.buffer.hasMatch P.storeBufferDepth i.physAddr &&
    -- A device is read only behind all buffered writes.
    !(cpuDeviceAccess i && !s.buffer.empty)

/-- `drain_req`. -/
def drainReq : Bool := !s.buffer.empty || storeBufPushReq P s i

/-- The write of the core as a buffer entry. -/
def pushEntry : StoreEntry := ⟨i.physAddr, i.byteEnable, i.writeData, cpuRamAccess i⟩

/-- `drain_addr`, `drain_be`, `drain_data` and `drain_ram`. -/
def drainEntry : StoreEntry := if s.buffer.empty then pushEntry i else s.buffer.slot 0

/-- `data_bus_drain_sel`. -/
def drainSel : Bool := drainReq P s i && !cpuLoadGo P s i

/-- `data_bus_walk_sel`. -/
def walkSel : Bool := i.walkReq && !cpuLoadGo P s i && !drainReq P s i

/-- The core side of the data cache. -/
def dcacheReq : DcacheReq where
  nextAddr := i.nextDataAddr
  cleanReq := i.cleanReq
  req := walkSel P s i || drainSel P s i || cpuLoadGo P s i
  addr :=
    if walkSel P s i then i.walkAddr
    else if drainSel P s i then (drainEntry s i).addr
    else i.physAddr
  we := drainSel P s i
  be :=
    if walkSel P s i then 0b1111#4
    else if drainSel P s i then (drainEntry s i).be
    else i.byteEnable
  -- Every write comes out of the buffer, or through it in the cycle it is made.
  wdata := if drainSel P s i then (drainEntry s i).data else 0#32
  loadType := if walkSel P s i then 0b010#3 else i.loadType

/-! ## Adapter and storage -/

/-- `dcache_mem_req`. -/
def memReq : Bool := Dcache.memReq s.cache (dcacheReq P s i)

/-- The access that the data cache presents. -/
def memStore : StoreReq where
  addr := Dcache.memAddr P.cache s.cache (dcacheReq P s i)
  we := Dcache.memWe s.cache (dcacheReq P s i)
  be := Dcache.memBe s.cache (dcacheReq P s i)
  wdata := Dcache.memWdata P.cache s.cache (dcacheReq P s i)

/-- The handshake of the adapter, before its data is known. -/
def handshake : MemRsp where
  gnt := s.adapter.gnt P.memLatency (memReq P s i)
  rvalid := s.adapter.rvalidOut P.memLatency (memReq P s i)
  rdata := 0#32

/-- `dcache_gnt`. -/
def dcacheGnt : Bool := Dcache.gnt P.cache s.cache (dcacheReq P s i) (handshake P s i)

/-- `dcache_rvalid`. -/
def dcacheRvalid : Bool := Dcache.rvalid P.cache s.cache (dcacheReq P s i) (handshake P s i)

/-- `data_bus_walk_owns`. -/
def walkOwns : Bool := s.walkOwner || (walkSel P s i && dcacheGnt P s i)

/-- `data_bus_drain_owns`. -/
def drainOwns : Bool := s.drainOwner || (drainSel P s i && dcacheGnt P s i)

/-- `data_store_addr` and its companions. -/
def dataStore : StoreReq := s.adapter.store P.memLatency (memStore P s i)

/-- `data_store_req`. -/
def dataStoreReq : Bool := s.adapter.storeReq P.memLatency (memReq P s i)

/-- `data_write_fire`. -/
def dataWriteFire : Bool := s.adapter.writeFire P.memLatency (memReq P s i) (memStore P s i)

/-- `data_read_fire`. -/
def dataReadFire : Bool := s.adapter.readFire P.memLatency (memReq P s i) (memStore P s i)

/-- `timer_access || uart_access || plic_access`. -/
def deviceAccess : Bool := isDevice (dataStore P s i).addr

/-- `ram_access`. -/
def ramAccess : Bool :=
  (translatedDataAccess i && !deviceAccess P s i) ||
    (!translatedDataAccess i && isDataMem (dataStore P s i).addr) ||
    (!translatedDataAccess i && isInstrMem (dataStore P s i).addr)

/-- `bus_ram_access`. -/
def busRamAccess : Bool :=
  Dcache.memLine s.cache ||
    (if drainOwns P s i then (drainEntry s i).ram else ramAccess P s i)

/-- `instr_read_data`. -/
def instrReadData : Word :=
  s.mem.read
    ((dataStoreReq P s i && (dataStore P s i).we && busRamAccess P s i) ||
      (dataStoreReq P s i && !(dataStore P s i).we && busRamAccess P s i))
    (dataStore P s i).addr
    (if Dcache.memLine s.cache || walkOwns P s i then 0b010#3 else i.loadType)

/-- `mem_read_data`. -/
def memReadData : Word :=
  if deviceAccess P s i then i.deviceData
  else if ramAccess P s i then instrReadData P s i
  else 0#32

/-- The memory side of the data cache. -/
def memRsp : MemRsp where
  gnt := s.adapter.gnt P.memLatency (memReq P s i)
  rvalid := s.adapter.rvalidOut P.memLatency (memReq P s i)
  rdata := s.adapter.rdataOut P.memLatency (memReadData P s i)

/-! ## Answers -/

/-- `cpu_data_rdata`, also the walker's `walk_rdata`. -/
def cpuDataRdata : Word := Dcache.rdata P.cache s.cache (dcacheReq P s i) (memRsp P s i)

/-- `mmu_walk_gnt`. -/
def walkGnt : Bool := dcacheGnt P s i && walkSel P s i

/-- `mmu_walk_rvalid`. -/
def walkRvalid : Bool := dcacheRvalid P s i && walkOwns P s i

/-- `cpu_data_gnt`. -/
def cpuDataGnt : Bool :=
  -- A write is granted and answered by entering the buffer.
  if i.memWriteEn then storeBufPushReq P s i else dcacheGnt P s i && cpuLoadGo P s i

/-- `cpu_data_rvalid`. -/
def cpuDataRvalid : Bool :=
  if i.memWriteEn then storeBufPushReq P s i
  else dcacheRvalid P s i && !walkOwns P s i && !drainOwns P s i

/-- `drain_done`. -/
def drainDone : Bool := dcacheRvalid P s i && drainOwns P s i

/-- `store_buf_push`. -/
def storeBufPush : Bool := storeBufPushReq P s i && !(s.buffer.empty && drainDone P s i)

/-- `store_buf_pop`. -/
def storeBufPop : Bool := drainDone P s i && !s.buffer.empty

/-- `store_buf_drained`. -/
def storeBufDrained : Bool :=
  s.buffer.drained P.storeBufferDepth (storeBufPush P s i) (storeBufPop P s i)

/-- `module_data_cache_clean_in`: also no write entering the cache this cycle. -/
def dataCacheClean : Bool := Dcache.clean P.cache s.cache && !drainReq P s i

/-! ## The clock edge -/

/-- The data side after the edge. -/
def next : DataBus where
  buffer :=
    s.buffer.next P.storeBufferDepth (storeBufPush P s i) (pushEntry i) (storeBufPop P s i)
  -- The owner of a grant keeps the port until its answer.
  walkOwner :=
    if dcacheRvalid P s i then false
    else if dcacheGnt P s i then walkSel P s i
    else s.walkOwner
  drainOwner :=
    if dcacheRvalid P s i then false
    else if dcacheGnt P s i then drainSel P s i
    else s.drainOwner
  cache := s.cache.next P.cache (dcacheReq P s i) (memRsp P s i)
  adapter :=
    s.adapter.next P.memLatency (memReq P s i) (memStore P s i) (memReadData P s i)
  mem :=
    if dataWriteFire P s i && busRamAccess P s i then
      s.mem.write (dataStore P s i).addr (dataStore P s i).be (dataStore P s i).wdata
    else s.mem

/-- The state before cycle `n` of the run that `ins` drives. -/
def run (init : DataBus) (ins : ℕ → DataIn) : ℕ → DataBus := Clocked.run (next P) init ins

end DataBus

end Synapse32
