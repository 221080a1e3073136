import SoftPlc.Fault

set_option autoImplicit false

namespace SoftPlc

def slotCount : Nat := 4

abbrev Slots (α : Type) := Vector α slotCount

def Fault.invalidId (id : Nat) : Fault := .because .invalidProgramId (toString id)

namespace Slots

variable {α : Type}

def put (s : Slots α) (i : Fin slotCount) (a : α) : Slots α := s.set i a i.isLt

def numbered (s : Slots α) : List (Nat × α) :=
  s.toList.zipIdx.map fun (a, i) => (i, a)

def filledExcept (s : Slots (Option α)) (skip : Option Nat) : List (Nat × α) :=
  s.numbered.filterMap fun (i, a) => if skip = some i then none else a.map (i, ·)

def find? (s : Slots (Option α)) (id : Nat) : Option α := s[id]?.join

end Slots

-- Addresses behind a bank read as zero and ignore what is written.
def bankSize : Nat := 256

abbrev BitBank := Vector UInt8 (bankSize / 8)

namespace BitBank

variable (bits : BitBank)

def mask (a : UInt16) : UInt8 := 1 <<< UInt8.ofNat (a.toNat % 8)

def bitAt (a : UInt16) : Bool :=
  match bits[a.toNat / 8]? with
  | some byte => byte &&& mask a != 0
  | none => false

def setBit (a : UInt16) (v : Bool) : BitBank :=
  match bits[a.toNat / 8]? with
  | some byte => bits.setIfInBounds (a.toNat / 8) (if v then byte ||| mask a else byte &&& ~~~ mask a)
  | none => bits

end BitBank

structure Registers where
  holding : Vector UInt16 bankSize := Vector.replicate bankSize 0
  input : Vector UInt16 bankSize := Vector.replicate bankSize 0
  coils : BitBank := Vector.replicate (bankSize / 8) 0
  discrete : BitBank := Vector.replicate (bankSize / 8) 0
deriving DecidableEq

namespace Registers

instance : Inhabited Registers := ⟨{}⟩

variable (r : Registers)

def holdingAt (a : UInt16) : UInt16 := r.holding[a.toNat]?.getD 0

def inputAt (a : UInt16) : UInt16 := r.input[a.toNat]?.getD 0

def coilAt (a : UInt16) : Bool := r.coils.bitAt a

def discreteAt (a : UInt16) : Bool := r.discrete.bitAt a

def setHolding (a v : UInt16) : Registers :=
  { r with holding := r.holding.setIfInBounds a.toNat v }

def setInput (a v : UInt16) : Registers :=
  { r with input := r.input.setIfInBounds a.toNat v }

def setCoil (a : UInt16) (v : Bool) : Registers :=
  { r with coils := r.coils.setBit a v }

def setDiscrete (a : UInt16) (v : Bool) : Registers :=
  { r with discrete := r.discrete.setBit a v }

end Registers

end SoftPlc
