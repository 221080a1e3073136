import SoftPlc.Controller.LogicProgram
import SoftPlc.Controller.Target
import SoftPlc.Store.ExportPool

set_option autoImplicit false

namespace SoftPlc

inductive Direction where
  | input
  | output
deriving DecidableEq, Repr

structure Binding where
  program : Nat
  name : String
  index : Nat
  dataType : DataType
  direction : Direction
  target : Target
deriving DecidableEq, Repr

namespace Binding

def reservedFrom : UInt16 := 200

def reservedTo : UInt16 := Allocation.poolBase + ExportPool.capacity.toUInt16

def isReserved (a : UInt16) : Bool := reservedFrom ≤ a && a < reservedTo

def width (t : DataType) (target : Target) : UInt8 :=
  if target.isBit then 1 else t.registers

-- Whether a variable of a type may be bound to a target: bits only to bits, inside the
-- banks, and no output to a reserved input register.
def check (t : DataType) (direction : Direction) (target : Target) : Except Fault Unit :=
  if target.isBit ∧ 1 < t.registers then
    .error (.because .invalidTarget (t.name ++ " NEEDS A REGISTER"))
  else if bankSize < target.address.toNat + (width t target).toNat then
    .error (.because .invalidTarget (target.render ++ " OUT OF RANGE"))
  else match direction, target with
    | .output, .input a =>
      if isReserved a ∨ isReserved (a + (width t target).toUInt16 - 1) then
        .error (.because .invalidTarget (target.render ++ " IS RESERVED"))
      else .ok ()
    | _, _ => .ok ()

def direction? : VariableClass → Option Direction
  | .input => some .input
  | .output => some .output
  | .ordinary | .constant => none

def make (id : Nat) (p : LogicProgram) (name : String) (target : Target) :
    Except Fault Binding :=
  match p.bytecode with
  | none => .error (.because .notCompiled p.name)
  | some b =>
    match Variable.lookup? (Text.upper name) b.vars with
    | none => .error (.because .undefinedVariable (Text.upper name))
    | some (index, v) =>
      match direction? v.variableClass with
      | none => .error (.because .invalidTarget (v.name ++ " IS NOT VAR_INPUT OR VAR_OUTPUT"))
      | some direction => do
        check v.dataType direction target
        return { program := id, name := v.name, index, dataType := v.dataType, direction, target }

end Binding

abbrev Bindings := List Binding

namespace Bindings

def countFor (table : Bindings) (id : Nat) : UInt16 :=
  UInt16.ofNat (table.countP (·.program == id))

def replace (table : Bindings) (b : Binding) : Bindings :=
  table.filter (fun c => !(c.program == b.program && c.index == b.index)) ++ [b]

def bind (table : Bindings) (id : Nat) (p : LogicProgram) (name : String) (target : Target) :
    Answer Bindings Unit :=
  match Binding.make id p name target with
  | .ok b => (.ok (), table.replace b)
  | .error f => (.error f, table)

def unbind (table : Bindings) (id : Nat) (name : String) : Bindings :=
  table.filter fun b => !(b.program == id && b.name == Text.upper name)

def clearProgram (table : Bindings) (id : Nat) : Bindings := table.filter (·.program != id)

def refresh (table : Bindings) (id : Nat) (p : LogicProgram) : Bindings :=
  (table.filter (·.program == id)).foldl
    (fun table b => (table.bind id p b.name b.target).2) (table.clearProgram id)

def ofProgram (table : Bindings) (id : Nat) (direction : Direction) : Bindings :=
  table.filter fun b => b.program == id && b.direction == direction

def readInputs (table : Bindings) (id : Nat) (r : Registers) (values : List Value) :
    List Value :=
  (table.ofProgram id .input).foldl
    (fun values b => values.set b.index (b.target.read b.dataType r)) values

def writeOutputs (table : Bindings) (id : Nat) (values : List Value) (r : Registers) :
    Registers :=
  (table.ofProgram id .output).foldl
    (fun r b => match values[b.index]? with
      | some v => b.target.write (v.cast b.dataType) r
      | none => r) r

end Bindings

end SoftPlc
