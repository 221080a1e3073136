import SoftPlc.Fault
import SoftPlc.Value.Basic
import SoftPlc.Value.Operator

/-!
Operators on values. Both operands have the operator's type already, shift counts apart;
integer results wrap at the width of the type and REAL results are rounded to the nearest.
-/
set_option autoImplicit false

namespace SoftPlc

open Numeric

namespace Value

def negate : Value → Except Fault Value
  | .int n => .ok (.int (-n))
  | .dint n => .ok (.dint (-n))
  | .dword n => .ok (.dword (-n))
  | .real x => .ok (.real x.negate)
  | .bool _ => .error (.because .typeMismatch "NEG ON BOOL")

def complement : Value → Except Fault Value
  | .bool b => .ok (.bool !b)
  | .int n => .ok (.int (~~~n))
  | .dint n => .ok (.dint (~~~n))
  | .dword n => .ok (.dword (~~~n))
  | .real _ => .error (.because .typeMismatch "NOT ON REAL")

def add : Value → Value → Except Fault Value
  | .int l, .int r => .ok (.int (l + r))
  | .dint l, .dint r => .ok (.dint (l + r))
  | .dword l, .dword r => .ok (.dword (l + r))
  | .real l, .real r => .ok (.real (l.add r))
  | _, _ => .error (.of .typeMismatch)

def subtract : Value → Value → Except Fault Value
  | .int l, .int r => .ok (.int (l - r))
  | .dint l, .dint r => .ok (.dint (l - r))
  | .dword l, .dword r => .ok (.dword (l - r))
  | .real l, .real r => .ok (.real (l.subtract r))
  | _, _ => .error (.of .typeMismatch)

def multiply : Value → Value → Except Fault Value
  | .int l, .int r => .ok (.int (l * r))
  | .dint l, .dint r => .ok (.dint (l * r))
  | .dword l, .dword r => .ok (.dword (l * r))
  | .real l, .real r => .ok (.real (l.multiply r))
  | _, _ => .error (.of .typeMismatch)

def divide : Value → Value → Except Fault Value
  | .int l, .int r => if r = 0 then .error (.of .divisionByZero) else .ok (.int (l / r))
  | .dint l, .dint r => if r = 0 then .error (.of .divisionByZero) else .ok (.dint (l / r))
  | .dword l, .dword r => if r = 0 then .error (.of .divisionByZero) else .ok (.dword (l / r))
  | .real l, .real r => .ok (.real (l.divide r))
  | _, _ => .error (.of .typeMismatch)

def modulo : Value → Value → Except Fault Value
  | .int l, .int r =>
    if r = 0 then .error (.because .divisionByZero "MOD BY ZERO") else .ok (.int (l % r))
  | .dint l, .dint r =>
    if r = 0 then .error (.because .divisionByZero "MOD BY ZERO") else .ok (.dint (l % r))
  | .dword l, .dword r =>
    if r = 0 then .error (.because .divisionByZero "MOD BY ZERO") else .ok (.dword (l % r))
  | _, _ => .error (.of .typeMismatch)

def and : Value → Value → Except Fault Value
  | .bool l, .bool r => .ok (.bool (l && r))
  | .int l, .int r => .ok (.int (l &&& r))
  | .dint l, .dint r => .ok (.dint (l &&& r))
  | .dword l, .dword r => .ok (.dword (l &&& r))
  | _, _ => .error (.of .typeMismatch)

def or : Value → Value → Except Fault Value
  | .bool l, .bool r => .ok (.bool (l || r))
  | .int l, .int r => .ok (.int (l ||| r))
  | .dint l, .dint r => .ok (.dint (l ||| r))
  | .dword l, .dword r => .ok (.dword (l ||| r))
  | _, _ => .error (.of .typeMismatch)

def xor : Value → Value → Except Fault Value
  | .bool l, .bool r => .ok (.bool (l != r))
  | .int l, .int r => .ok (.int (l ^^^ r))
  | .dint l, .dint r => .ok (.dint (l ^^^ r))
  | .dword l, .dword r => .ok (.dword (l ^^^ r))
  | _, _ => .error (.of .typeMismatch)

def shiftCount (count : Value) : Except Fault Nat :=
  if 0 ≤ count.toInt ∧ count.toInt ≤ 31 then .ok count.toInt.toNat
  else .error (.because .illegalFunctionCall "SHIFT COUNT OUT OF RANGE")

def shiftLeft (v count : Value) : Except Fault Value :=
  match shiftCount count with
  | .error f => .error f
  | .ok places =>
    match v with
    | .int n => .ok (.int (Int16.ofBitVec (n.toBitVec <<< places)))
    | .dint n => .ok (.dint (Int32.ofBitVec (n.toBitVec <<< places)))
    | .dword n => .ok (.dword (UInt32.ofBitVec (n.toBitVec <<< places)))
    | _ => .error (.of .typeMismatch)

def shiftRight (v count : Value) : Except Fault Value :=
  match shiftCount count with
  | .error f => .error f
  | .ok places =>
    match v with
    | .int n => .ok (.int (Int16.ofBitVec (n.toBitVec >>> places)))
    | .dint n => .ok (.dint (Int32.ofBitVec (n.toBitVec >>> places)))
    | .dword n => .ok (.dword (UInt32.ofBitVec (n.toBitVec >>> places)))
    | _ => .error (.of .typeMismatch)

def order : Value → Value → Except Fault (Option Ordering)
  | .bool l, .bool r => .ok (some (compare l.toNat r.toNat))
  | .int l, .int r => .ok (some (compare l.toInt r.toInt))
  | .dint l, .dint r => .ok (some (compare l.toInt r.toInt))
  | .dword l, .dword r => .ok (some (compare l.toNat r.toNat))
  | .real l, .real r => .ok (l.order r)
  | _, _ => .error (.of .typeMismatch)

def isBelow (l r : Value) : Except Fault Bool :=
  (order l r).map (· = some .lt)

end Value

def BinaryOp.apply (op : BinaryOp) (l r : Value) : Except Fault Value :=
  match op with
  | .add => l.add r
  | .subtract => l.subtract r
  | .multiply => l.multiply r
  | .divide => l.divide r
  | .modulo => l.modulo r
  | .shiftLeft => l.shiftLeft r
  | .shiftRight => l.shiftRight r
  | .and => l.and r
  | .or => l.or r
  | .xor => l.xor r
  | .equal | .notEqual | .less | .lessEqual | .greater | .greaterEqual =>
    (l.order r).map fun order => .bool (op.holdsOf order)

end SoftPlc
