import SoftPlc.Value.Arithmetic

set_option autoImplicit false

namespace SoftPlc

open Numeric

inductive Builtin where
  | abs (t : DataType)
  | min (t : DataType)
  | max (t : DataType)
  | limit (t : DataType)
  | select (t : DataType)
  | sqrt
  | sine
  | cosine
  | tangent
  | round
  | truncate
  | floor
  | ceiling
deriving DecidableEq, Repr

namespace Builtin

def arity : Builtin → Nat
  | .min _ | .max _ => 2
  | .limit _ | .select _ => 3
  | _ => 1

def name : Builtin → String
  | .abs _ => "ABS"
  | .min _ => "MIN"
  | .max _ => "MAX"
  | .limit _ => "LIMIT"
  | .select _ => "SEL"
  | .sqrt => "SQRT"
  | .sine => "SIN"
  | .cosine => "COS"
  | .tangent => "TAN"
  | .round => "ROUND"
  | .truncate => "TRUNC"
  | .floor => "FLOOR"
  | .ceiling => "CEIL"

def dataType? : Builtin → Option DataType
  | .abs t | .min t | .max t | .limit t | .select t => some t
  | _ => none

def render (f : Builtin) : String :=
  match f.dataType? with
  | some t => f.name ++ "(" ++ t.name ++ ")"
  | none => f.name

def expectReal : Value → Except Fault Single
  | .real x => .ok x
  | _ => .error (.because .typeMismatch "EXPECTED REAL")

-- Rounds to an integer of 16 bits. Numbers out of range take the nearer end, and what is
-- not a number takes the lower one.
def roundToInt (mode : RoundingMode) (x : Single) : Value :=
  .int (Int16.ofInt (x.toInt mode (-32768) 32767 (-32768)))

def apply : Builtin → List Value → Except Fault Value
  | .abs _, [v] =>
    match v with
    | .real x => .ok (.real x.abs)
    | .bool _ => .error (.because .typeMismatch "ABS")
    | v => do
      if ← v.isBelow (.zero v.dataType) then v.negate else return v
  | .min _, [a, b] => return if ← b.isBelow a then b else a
  | .max _, [a, b] => return if ← a.isBelow b then b else a
  | .limit _, [low, v, high] => do
    if ← v.isBelow low then return low
    else if ← high.isBelow v then return high
    else return v
  | .select _, [choice, a, b] =>
    match choice with
    | .bool second => .ok (if second then b else a)
    | _ => .error (.because .typeMismatch "SEL")
  | .sqrt, [v] => do
    let x ← expectReal v
    if x.less Single.zero then .error (.because .illegalFunctionCall "SQRT OF NEGATIVE")
    else return .real x.sqrt
  | .sine, [v] => return .real (← expectReal v).sine
  | .cosine, [v] => return .real (← expectReal v).cosine
  | .tangent, [v] => return .real (← expectReal v).tangent
  | .round, [v] => return roundToInt .nearestAway (← expectReal v)
  | .truncate, [v] => return roundToInt .towardZero (← expectReal v)
  | .floor, [v] => return roundToInt .down (← expectReal v)
  | .ceiling, [v] => return roundToInt .up (← expectReal v)
  | _, _ => .error (.because .internalError "BUILTIN ARITY")

def typedArguments : Builtin → List Value → List Value
  | .select _, args => args.drop 1
  | _, args => args

def call (f : Builtin) (args : List Value) : Except Fault Value :=
  if args.length ≠ f.arity then .error (.because .internalError "BUILTIN ARITY")
  else match f.dataType? with
    | some t =>
      if (f.typedArguments args).any (·.dataType != t) then
        .error (.because .typeMismatch f.name)
      else f.apply args
    | none => f.apply args

end Builtin

inductive Signature where
  | numeric (make : DataType → Builtin) (arity : Nat)
  | select
  | real (f : Builtin)
  | integer (f : Builtin)
  | convert (t : DataType)

namespace Signature

def arity : Signature → Nat
  | .numeric _ n => n
  | .select => 3
  | .real _ | .integer _ | .convert _ => 1

def ofName? (name : String) : Option Signature :=
  match name with
  | "ABS" => some (.numeric .abs 1)
  | "MIN" => some (.numeric .min 2)
  | "MAX" => some (.numeric .max 2)
  | "LIMIT" => some (.numeric .limit 3)
  | "SEL" => some .select
  | "SQRT" => some (.real .sqrt)
  | "SIN" => some (.real .sine)
  | "COS" => some (.real .cosine)
  | "TAN" => some (.real .tangent)
  | "ROUND" => some (.integer .round)
  | "TRUNC" => some (.integer .truncate)
  | "FLOOR" => some (.integer .floor)
  | "CEIL" => some (.integer .ceiling)
  | "INT_TO_REAL" | "DINT_TO_REAL" | "DWORD_TO_REAL" => some (.convert .real)
  | "REAL_TO_INT" | "DINT_TO_INT" | "DWORD_TO_INT" | "BOOL_TO_INT" => some (.convert .int)
  | "INT_TO_DINT" | "REAL_TO_DINT" | "DWORD_TO_DINT" | "BOOL_TO_DINT" => some (.convert .dint)
  | "INT_TO_DWORD" | "DINT_TO_DWORD" | "REAL_TO_DWORD" | "BOOL_TO_DWORD" =>
    some (.convert .dword)
  | "INT_TO_BOOL" | "DINT_TO_BOOL" | "DWORD_TO_BOOL" => some (.convert .bool)
  | _ => none

end Signature

end SoftPlc
