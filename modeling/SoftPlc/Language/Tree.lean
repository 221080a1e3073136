import SoftPlc.Fault
import SoftPlc.Numeric.Float
import SoftPlc.Value.DataType
import SoftPlc.Value.Operator

set_option autoImplicit false

namespace SoftPlc

open Numeric

inductive Expression where
  | integer (span : Span) (n : Nat)
  | real (span : Span) (x : Double)
  | bool (span : Span) (b : Bool)
  | named (span : Span) (name : String)
  | call (span : Span) (name : String) (args : List Expression)
  | negation (span : Span) (operand : Expression)
  | complement (span : Span) (operand : Expression)
  | binary (span : Span) (op : BinaryOp) (left right : Expression)
deriving Repr, Inhabited

namespace Expression

def span : Expression → Span
  | .integer s _ | .real s _ | .bool s _ | .named s _ | .call s _ _ | .negation s _
  | .complement s _ | .binary s _ _ _ => s

def integerConstant : Expression → Option Int
  | .integer _ n => some n
  | .negation _ e => e.integerConstant.map (- ·)
  | _ => none

end Expression

inductive CaseLabel where
  | single (n : Int)
  | range (low high : Int)
deriving DecidableEq, Repr

def CaseLabel.contains (label : CaseLabel) (n : Int) : Bool :=
  match label with
  | .single v => v = n
  | .range low high => low ≤ n ∧ n ≤ high

inductive Statement where
  | assign (line : UInt16) (span : Span) (name : String) (value : Expression)
  | choose (line : UInt16) (branches : List (Expression × List Statement))
      (otherwise : List Statement)
  | select (line : UInt16) (selector : Expression)
      (arms : List (List CaseLabel × List Statement)) (otherwise : List Statement)
  | count (line : UInt16) (span : Span) (name : String) (first last : Expression)
      (step : Option Expression) (body : List Statement)
  | while (line : UInt16) (condition : Expression) (body : List Statement)
  | repeat (line : UInt16) (body : List Statement) (condition : Expression)
  | exit (line : UInt16) (span : Span)
  | leave (line : UInt16)
deriving Repr, Inhabited

def Statement.line : Statement → UInt16
  | .assign l .. | .choose l .. | .select l .. | .count l .. | .while l .. | .repeat l ..
  | .exit l .. | .leave l => l

structure Declaration where
  line : UInt16
  span : Span
  name : String
  dataType : DataType
  variableClass : VariableClass
  exported : Bool
  initializer : Option Expression
deriving Repr

structure SourceProgram where
  name : Option String
  declarations : List Declaration
  body : List Statement
deriving Repr

end SoftPlc
