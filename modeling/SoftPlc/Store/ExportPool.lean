import SoftPlc.Bytecode.Program
import SoftPlc.Store.Basic

/-!
The slice of the input registers that exported variables are published in. Programs get
registers behind the last one taken; what is freed before it is used again only after the
allocations have been moved together.
-/
set_option autoImplicit false

namespace SoftPlc

structure Allocation where
  offset : UInt8
  size : UInt8
deriving DecidableEq, Repr

namespace Allocation

def stop (a : Allocation) : UInt8 := a.offset + a.size

def poolBase : UInt16 := 220

def base (a : Allocation) : UInt16 := poolBase + a.offset.toUInt16

end Allocation

structure ExportPool where
  allocations : Slots (Option Allocation) := Vector.replicate slotCount none
deriving DecidableEq

namespace ExportPool

instance : Inhabited ExportPool := ⟨{}⟩

def capacity : UInt8 := 32

def allocation? (p : ExportPool) (id : Nat) : Option Allocation := p.allocations.find? id

def highWater (p : ExportPool) (skip : Nat) : UInt8 :=
  ((p.allocations.filledExcept (some skip)).map (·.2.stop)).foldl max 0

def used (p : ExportPool) : UInt8 :=
  (p.allocations.filledExcept none).foldr (fun owned rest => owned.2.size + rest) 0

def free (p : ExportPool) : UInt8 := capacity - p.used

def release (p : ExportPool) (id : Nat) : ExportPool :=
  { allocations := p.allocations.setIfInBounds id none }

def allocate (p : ExportPool) (id : Nat) (size : UInt8) : Answer ExportPool UInt8 :=
  if slotCount ≤ id then (.error (.invalidId id), p)
  else if size = 0 then (.ok 0, p.release id)
  else
    let offset := p.highWater id
    if capacity < size ∨ capacity < offset + size then
      (.error (.because .poolExhausted ("NEED " ++ toString size.toNat ++ " REGISTERS, " ++
        toString (capacity - offset).toNat ++ " FREE")), p)
    else (.ok offset, { allocations := p.allocations.setIfInBounds id (some ⟨offset, size⟩) })

abbrev Held := Nat × Allocation

def insertHeld (h : Held) : List Held → List Held
  | [] => [h]
  | g :: rest =>
    if g.2.offset ≤ h.2.offset then g :: insertHeld h rest else h :: g :: rest

def inOrder (p : ExportPool) : List Held :=
  (p.allocations.filledExcept none).foldl (fun sorted h => insertHeld h sorted) []

def moveDown (offset : UInt8) (p : ExportPool) : List Held → ExportPool
  | [] => p
  | (id, a) :: rest =>
    moveDown (offset + a.size)
      { allocations := p.allocations.setIfInBounds id (some ⟨offset, a.size⟩) } rest

def compact (p : ExportPool) : ExportPool := moveDown 0 p p.inOrder

def allocateAll (p : ExportPool) :
    List (Nat × Option Bytecode) → ExportPool × List (Nat × Fault)
  | [] => (p, [])
  | (_, none) :: rest => allocateAll p rest
  | (id, some b) :: rest =>
    match p.allocate id b.exportSize with
    | (.ok _, p) => allocateAll p rest
    | (.error f, p) =>
      let (p, failures) := allocateAll p rest
      (p, (id, f) :: failures)

def layOut (programs : List (Option Bytecode)) : ExportPool × List (Nat × Fault) :=
  allocateAll {} ((programs.take slotCount).zipIdx.map fun (b, i) => (i, b))

def publishFrom (a : Allocation) (values : List Value) (slot : UInt16) (r : Registers) :
    List (Nat × Variable) → Registers
  | [] => r
  | (index, v) :: rest =>
    let count := v.dataType.registers.toUInt16
    if a.size.toUInt16 < slot + count then r
    else match values[index]? with
      | none => r
      | some value =>
        let value := value.cast v.dataType
        let address := a.base + slot
        let r := r.setInput address value.lowWord
        let r := if count = 2 then r.setInput (address + 1) value.highWord else r
        publishFrom a values (slot + count) r rest

def publish (p : ExportPool) (id : Nat) (b : Bytecode) (values : List Value)
    (r : Registers) : Registers :=
  match p.allocation? id with
  | some a => publishFrom a values 0 r b.exports
  | none => r

end ExportPool

end SoftPlc
