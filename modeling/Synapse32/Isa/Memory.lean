import Synapse32.Lib.ByteLanes
import Synapse32.Rtl.InstrDefines

/-! # Memory accesses of the instruction set

A byte-addressed memory, the value a load has in it, and the record of an access. -/

namespace Synapse32

open ByteLanes

/-- The value of a load of kind `funct3` at `a`, extended as it says. -/
def loadValue (m : ℕ → BitVec 8) (a : ℕ) (kind : BitVec 3) : Word :=
  if kind = 0b000#3 then (m a).signExtend 32
  else if kind = 0b100#3 then (m a).setWidth 32
  else if kind = 0b001#3 then (loadHalf m a).signExtend 32
  else if kind = 0b101#3 then (loadHalf m a).setWidth 32
  else if kind = 0b010#3 then loadWord m a
  else 0#32

/-- A data access: a load with its type and the value it delivers, or a store with its byte enables,
which count from the address. -/
inductive Access
  | read (addr : Word) (loadType : BitVec 3) (value : Word)
  | write (addr : Word) (be : BitVec 4) (data : Word)
  deriving DecidableEq

/-- What an access does to the memory. -/
def Access.apply (m : ℕ → BitVec 8) : Access → ℕ → BitVec 8
  | .read _ _ _ => m
  | .write addr be data => store m addr.toNat be data

end Synapse32
