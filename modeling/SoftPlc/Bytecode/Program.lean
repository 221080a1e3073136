import SoftPlc.Bytecode.Instruction
import SoftPlc.Text

set_option autoImplicit false

namespace SoftPlc

structure Variable where
  name : String
  dataType : DataType
  variableClass : VariableClass
  exported : Bool
  initial : Value
deriving DecidableEq, Repr

namespace Variable

def lookup? (name : String) (vars : List Variable) : Option (Nat × Variable) :=
  (vars.zipIdx.find? (·.1.name == name)).map fun (v, i) => (i, v)

end Variable

structure Bytecode where
  name : Option String
  code : List Instruction
  vars : List Variable
deriving DecidableEq, Repr

namespace Bytecode

def maxInstructions : Nat := 1024

def maxVariables : Nat := 32

def indexOf? (b : Bytecode) (name : String) : Option Nat :=
  (Variable.lookup? (Text.upper name) b.vars).map (·.1)

def initialValues (b : Bytecode) : List Value := b.vars.map (·.initial)

def exports (b : Bytecode) : List (Nat × Variable) :=
  (b.vars.zipIdx.filter (·.1.exported)).map fun (v, i) => (i, v)

def exportSize (b : Bytecode) : UInt8 :=
  b.exports.foldr (fun e rest => e.2.dataType.registers + rest) 0

end Bytecode

end SoftPlc

namespace SoftPlc.Bytecode

def listedArgument (b : Bytecode) (i : Instruction) : String :=
  match i with
  | .load index | .store index =>
    match b.vars[index]? with
    | some v => v.name
    | none => "#" ++ toString index
  | i => i.argument?.getD ""

def listedLine (b : Bytecode) (address : Nat) (i : Instruction) (marked current : Bool) :
    String :=
  let body := "[" ++ Text.padLeft 3 (toString address) ++ "] " ++
    Text.padRight 18 i.mnemonic ++ " " ++ b.listedArgument i
  (if marked then "*" else " ") ++ (if current then ">" else " ") ++ Text.trimEnd body

def listing (b : Bytecode) (marked : Nat → Bool) (current : Option Nat) : List String :=
  b.code.zipIdx.map fun (i, address) =>
    b.listedLine address i (marked address) (current = some address)

def listedVariable (index : Nat) (v : Variable) : String :=
  "[" ++ Text.padLeft 2 (toString index) ++ "] " ++ Text.padRight 16 v.name ++ " " ++
    Text.padRight 6 v.dataType.name ++ " " ++ v.variableClass.name ++
    (if v.exported then " EXPORT" else "") ++ " := " ++ v.initial.render

def variableListing (b : Bytecode) : List String :=
  b.vars.zipIdx.map fun (v, i) => listedVariable i v

end SoftPlc.Bytecode
