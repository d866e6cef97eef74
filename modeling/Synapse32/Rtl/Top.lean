import Synapse32.Rtl.RiscvCpu
import Synapse32.Rtl.Sv32
import Synapse32.Rtl.Icache
import Synapse32.Rtl.DataBus

/-! # The SoC

`rtl/top.v`: the core, the MMU, the instruction cache with its adapter, and the data side. The
devices are inputs. The ports of a module are wired in two steps where one of its outputs goes back
to it through another module: the ports that the output reads come first, the others as blanks. -/

namespace Synapse32

/-- The parameters of `top.v`. -/
structure TopParams where
  bus : BusParams
  icache : IcacheParams
  fetchLatency : ℕ

/-- The registers of `top.v` and of the modules it instantiates, the devices apart. -/
structure Top where
  cpu : RiscvCpu
  mmu : Sv32Mmu
  icache : Icache
  instrAdapter : MemAdapter
  bus : DataBus

/-- What the devices present in a cycle. -/
structure TopIn where
  deviceData : Word
  timerInterrupt : Bool
  machineSoftwareInterrupt : Bool
  machineExternalInterrupt : Bool
  supervisorExternalInterrupt : Bool
  mtime : BitVec 64

/-- What the block RAMs of the caches, their read registers and the memory hold at power-on, which
no reset clears. -/
structure PowerOn where
  icacheData : ℕ → ℕ → Word
  icacheTag : ℕ → ℕ → ℕ
  icacheDataRd : ℕ → Word
  icacheTagRd : ℕ → ℕ
  dcacheData : ℕ → ℕ → Word
  dcacheTag : ℕ → ℕ → ℕ
  dcacheDataRd : ℕ → Word
  dcacheTagRd : ℕ → ℕ
  mem : UnifiedMem

namespace Top

/-- The registers after reset. -/
def reset (m : PowerOn) : Top where
  cpu := RiscvCpu.reset
  mmu := Sv32Mmu.reset
  icache := Icache.reset m.icacheData m.icacheTag m.icacheDataRd m.icacheTagRd
  instrAdapter := MemAdapter.reset
  bus :=
    DataBus.reset (Dcache.reset m.dcacheData m.dcacheTag m.dcacheDataRd m.dcacheTagRd) m.mem

variable (P : TopParams) (s : Top) (d : TopIn)

/-! ## Translation -/

/-- `data_mem_addr`. -/
def dataMemAddr : Word :=
  if RiscvCpu.memWrEn s.cpu then RiscvCpu.writeAddr s.cpu else RiscvCpu.readAddr s.cpu

/-- `translated_data_access`. -/
def translatedDataAccess : Bool :=
  RiscvCpu.dataMmuEnable s.cpu && (RiscvCpu.memWrEn s.cpu || RiscvCpu.memRdEn s.cpu)

/-- The requests at the MMU; the flush and the walk port come later. -/
def mmuRequest : MmuIn where
  flushTlb := false
  satp := s.cpu.csrFile.satp
  dataSum := s.cpu.csrFile.mstatus.getLsbD 18
  dataMxr := s.cpu.csrFile.mstatus.getLsbD 19
  instrTranslateEnable := RiscvCpu.instrMmuEnable s.cpu
  instrVirtualAddr := s.cpu.pc
  instrPrivMode := s.cpu.csrFile.privilegeMode
  dataTranslateEnable := translatedDataAccess s
  dataVirtualAddr := dataMemAddr s
  dataRdEn := RiscvCpu.memRdEn s.cpu
  dataWrReq := RiscvCpu.dataWriteIntent s.cpu
  dataPrivMode := RiscvCpu.dataPrivilegeMode s.cpu
  walkGnt := false
  walkRvalid := false
  walkRdata := 0#32

/-- `phys_instr_addr`. -/
def physInstrAddr : Word := Sv32Mmu.instrPhysAddr s.mmu (mmuRequest s)

/-- `phys_data_addr`. -/
def physDataAddr : Word := Sv32Mmu.dataPhysAddr s.mmu (mmuRequest s)

/-- `mmu_instr_ready`. -/
def mmuInstrReady : Bool := Sv32Mmu.instrReady s.mmu (mmuRequest s)

/-- `mmu_data_ready`. -/
def mmuDataReady : Bool := Sv32Mmu.dataReady s.mmu (mmuRequest s)

/-- `cpu_instr_page_fault`. -/
def cpuInstrPageFault : Bool := Sv32Mmu.instrPageFault s.mmu (mmuRequest s)

/-- `cpu_load_page_fault`. -/
def cpuLoadPageFault : Bool := Sv32Mmu.dataLoadPageFault s.mmu (mmuRequest s)

/-- `cpu_store_page_fault`. -/
def cpuStorePageFault : Bool := Sv32Mmu.dataStorePageFault s.mmu (mmuRequest s)

/-! ## The data side -/

/-- The inputs of the core with no response yet. The write data of a cycle that writes does not
depend on the response: an AMO writes from the word it has registered. -/
def cpuIdle : CpuIn where
  instrIn := 0#32
  readDataIn := 0#32
  loadPageFaultIn := cpuLoadPageFault s
  storePageFaultIn := cpuStorePageFault s
  instrPageFaultIn := cpuInstrPageFault s
  instrGntIn := false
  instrRvalidIn := false
  dataRvalidIn := false
  storeBufferEmptyIn := false
  dataCacheCleanIn := false
  timerInterrupt := d.timerInterrupt
  machineSoftwareInterrupt := d.machineSoftwareInterrupt
  machineExternalInterrupt := d.machineExternalInterrupt
  supervisorExternalInterrupt := d.supervisorExternalInterrupt
  mtimeIn := d.mtime

/-- The access at the data side; the next address of MEM, which only steers the read of the cache's
arrays, comes later. -/
def dataRequest : DataIn where
  memReadEn := RiscvCpu.memRdEn s.cpu
  memWriteEn := RiscvCpu.memWrEn s.cpu
  loadPageFault := cpuLoadPageFault s
  storePageFault := cpuStorePageFault s
  mmuEnable := RiscvCpu.dataMmuEnable s.cpu
  dataReady := mmuDataReady s
  physAddr := physDataAddr s
  byteEnable := RiscvCpu.writeByteEnable s.cpu
  writeData := RiscvCpu.wrDataOut s.cpu (cpuIdle s d)
  loadType := RiscvCpu.loadType s.cpu
  nextDataAddr := 0#32
  cleanReq := RiscvCpu.dataCacheCleanReq s.cpu
  walkReq := Sv32Mmu.walkReq s.mmu
  walkAddr := Sv32Mmu.walkAddr s.mmu (mmuRequest s)
  deviceData := d.deviceData

/-! ## The fetch side -/

/-- The fetch at the instruction cache; the flush and the next PC, which act at the edge, and the
memory side come later. -/
def fetchRequest : IcacheIn where
  flush := false
  nextPc := 0#32
  req := mmuInstrReady s && !cpuInstrPageFault s
  addr := physInstrAddr s
  memGnt := false
  memRvalid := false
  memRdata := 0#32

/-- `icache_mem_req`. -/
def icacheMemReq : Bool := Icache.memReq s.icache (fetchRequest s)

/-- The access that the instruction cache presents: a read. -/
def icacheStore : StoreReq := ⟨Icache.memAddr P.icache s.icache (fetchRequest s), false, 0#4, 0#32⟩

/-- `instr_store_rdata`: the fetch port of the RAM. -/
def instrStoreRdata : Word :=
  s.bus.mem.fetch (s.instrAdapter.store P.fetchLatency (icacheStore P s)).addr

/-- The fetch with the response of its adapter. -/
def fetchIn : IcacheIn :=
  { fetchRequest s with
    memGnt := s.instrAdapter.gnt P.fetchLatency (icacheMemReq s)
    memRvalid := s.instrAdapter.rvalidOut P.fetchLatency (icacheMemReq s)
    memRdata := s.instrAdapter.rdataOut P.fetchLatency (instrStoreRdata P s) }

/-! ## The core -/

/-- The inputs of the core. -/
def cpuIn : CpuIn where
  instrIn := Icache.rdata P.icache s.icache (fetchIn P s)
  readDataIn := DataBus.cpuDataRdata P.bus s.bus (dataRequest s d)
  loadPageFaultIn := cpuLoadPageFault s
  storePageFaultIn := cpuStorePageFault s
  instrPageFaultIn := cpuInstrPageFault s
  instrGntIn := Icache.gnt P.icache s.icache (fetchIn P s)
  instrRvalidIn := Icache.rvalid P.icache s.icache (fetchIn P s)
  dataRvalidIn := DataBus.cpuDataRvalid P.bus s.bus (dataRequest s d)
  storeBufferEmptyIn := DataBus.storeBufDrained P.bus s.bus (dataRequest s d)
  dataCacheCleanIn := DataBus.dataCacheClean P.bus s.bus (dataRequest s d)
  timerInterrupt := d.timerInterrupt
  machineSoftwareInterrupt := d.machineSoftwareInterrupt
  machineExternalInterrupt := d.machineExternalInterrupt
  supervisorExternalInterrupt := d.supervisorExternalInterrupt
  mtimeIn := d.mtime

/-! ## The clock edge -/

/-- The ports of the MMU. -/
def mmuIn : MmuIn :=
  { mmuRequest s with
    flushTlb := RiscvCpu.tlbFlush s.cpu (cpuIn P s d)
    walkGnt := DataBus.walkGnt P.bus s.bus (dataRequest s d)
    walkRvalid := DataBus.walkRvalid P.bus s.bus (dataRequest s d)
    walkRdata := DataBus.cpuDataRdata P.bus s.bus (dataRequest s d) }

/-- The ports of the data side. -/
def dataIn : DataIn :=
  { dataRequest s d with nextDataAddr := RiscvCpu.nextDataAddr s.cpu (cpuIn P s d) }

/-- The ports of the instruction cache. -/
def icacheIn : IcacheIn :=
  { fetchIn P s with
    flush := RiscvCpu.instrCacheFlush s.cpu (cpuIn P s d)
    nextPc := RiscvCpu.nextPc s.cpu (cpuIn P s d) }

/-- The clock edge of `top.v`. -/
def next : Top where
  cpu := RiscvCpu.next s.cpu (cpuIn P s d)
  mmu := Sv32Mmu.next s.mmu (mmuIn P s d)
  icache := Icache.next P.icache s.icache (icacheIn P s d)
  instrAdapter :=
    s.instrAdapter.next P.fetchLatency (icacheMemReq s) (icacheStore P s) (instrStoreRdata P s)
  bus := DataBus.next P.bus s.bus (dataIn P s d)

/-- The SoC before cycle `n`, from reset, under a stream of device inputs. -/
def run (m : PowerOn) (ins : ℕ → TopIn) (n : ℕ) : Top := Clocked.run (next P) (reset m) ins n

end Top

end Synapse32
