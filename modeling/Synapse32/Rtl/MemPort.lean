import Synapse32.Rtl.Dcache

/-! # A memory port that answers one request at a time

The protocol that `rtl/mem_adapter.v` implements in front of the backing store, with the timing
left open: a presented request may be accepted while the port is idle, the access happens in that
cycle or a later one, and the response comes in the cycle of the access or a later one. -/

namespace Synapse32

open ByteLanes

/-- What an accepted request waits for. -/
inductive MemPort
  | idle
  | waiting (q : MemReq)
  | done (q : MemReq) (rdata : Word)

/-- The port's choices in one cycle, what a device answers if it is read, and what the data lines
carry while no response is presented. -/
structure MemChoice where
  accept : Bool
  access : Bool
  respond : Bool
  device : Word
  bus : Word

namespace MemPort

/-- The port after it has seen the request of the cycle. -/
def accepted (p : MemPort) (q : Option MemReq) (c : MemChoice) : MemPort :=
  match p, q with
  | .idle, some q => if c.accept then .waiting q else .idle
  | p, _ => p

/-- The request of the cycle is accepted. -/
def gnt (p : MemPort) (q : Option MemReq) (c : MemChoice) : Bool :=
  match p, q with
  | .idle, some _ => c.accept
  | _, _ => false

/-- The port after the access, where it happens in this cycle. -/
def accessed (p : MemPort) (ram : ℕ → Word) (c : MemChoice) : MemPort :=
  match p with
  | .waiting q =>
    if c.access then
      .done q (if q.line then ram (DcacheParams.wordAddr q.addr) else c.device)
    else p
  | p => p

/-- The RAM after the access. -/
def ramAfter (p : MemPort) (ram : ℕ → Word) (c : MemChoice) : ℕ → Word :=
  match p with
  | .waiting q =>
    if c.access && q.line && q.we then
      Function.update ram (DcacheParams.wordAddr q.addr)
        (merge q.be q.wdata (ram (DcacheParams.wordAddr q.addr)))
    else ram
  | _ => ram

/-- A response is presented. -/
def rvalid (p : MemPort) (c : MemChoice) : Bool :=
  match p with
  | .done _ _ => c.respond
  | _ => false

/-- The data of the response. -/
def rdata (p : MemPort) (c : MemChoice) : Word :=
  match p with
  | .done _ v => if c.respond then v else c.bus
  | _ => c.bus

/-- The port after the response. -/
def responded (p : MemPort) (c : MemChoice) : MemPort :=
  match p with
  | .done q v => if c.respond then .idle else .done q v
  | p => p

end MemPort

/-- The data cache with a memory behind it. -/
structure CacheSystem where
  cache : Dcache
  port : MemPort
  ram : ℕ → Word

namespace CacheSystem

variable (P : DcacheParams) (s : CacheSystem) (r : DcacheReq) (c : MemChoice)

/-- The request the cache presents. -/
def request : Option MemReq :=
  if Dcache.memReq s.cache r then some (Dcache.memRequest P s.cache r) else none

/-- The port once the request is seen and the access made. -/
def portAfter : MemPort := ((s.port.accepted (request P s r) c).accessed s.ram c)

/-- The RAM after the cycle's access. -/
def ramAfter : ℕ → Word := (s.port.accepted (request P s r) c).ramAfter s.ram c

/-- What the cache sees at its memory side. -/
def response : MemRsp where
  gnt := s.port.gnt (request P s r) c
  rvalid := (portAfter P s r c).rvalid c
  rdata := (portAfter P s r c).rdata c

/-- One clock cycle. -/
def next : CacheSystem where
  cache := s.cache.next P r (response P s r c)
  port := (portAfter P s r c).responded c
  ram := ramAfter P s r c

end CacheSystem

end Synapse32
