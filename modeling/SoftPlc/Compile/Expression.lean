import SoftPlc.Bytecode.Program
import SoftPlc.Language.Tree

set_option autoImplicit false

namespace SoftPlc.Compile

open Numeric

structure Fragment where
  code : List Instruction
  dataType : DataType
deriving DecidableEq, Repr

namespace Fragment

def literal (v : Value) : Fragment := ⟨[.push v], v.dataType⟩

def castTo (f : Fragment) (t : DataType) : Fragment :=
  if f.dataType = t then f
  else match f.code with
    | [.push v] => ⟨[.push (v.cast t)], t⟩
    | code => ⟨code ++ [.cast t], t⟩

@[simp] theorem dataType_castTo (f : Fragment) (t : DataType) :
    (f.castTo t).dataType = t := by
  unfold castTo
  split
  · assumption
  · split <;> rfl

end Fragment

def failAt {α : Type} (kind : Fault.Kind) (span : Span) (message : String) : Except Fault α :=
  .error { kind, span, message }

def narrowest? (n : Int) : Option Value :=
  if -32768 ≤ n ∧ n < 32768 then some (.int (Int16.ofInt n))
  else if -2147483648 ≤ n ∧ n < 2147483648 then some (.dint (Int32.ofInt n))
  else if 0 ≤ n ∧ n < 4294967296 then some (.dword (UInt32.ofInt n))
  else none

def integerLiteral (n : Int) (span : Span) : Except Fault Value :=
  match narrowest? n with
  | some v => .ok v
  | none => failAt .syntaxError span "INTEGER OUT OF RANGE"

def realLiteral (x : Double) : Value := .real (Single.ofDouble x)

def negatedRealLiteral (x : Double) : Value := .real (Single.ofDouble x).negate

def lookup (vars : List Variable) (name : String) (span : Span) :
    Except Fault (Nat × Variable) :=
  match Variable.lookup? name vars with
  | some found => .ok found
  | none => failAt .undefinedVariable span name

def mixesBool (a b : DataType) : Bool := (a == .bool) != (b == .bool)

def checkOperands (op : BinaryOp) (t : DataType) (span : Span) : Except Fault Unit :=
  match op with
  | .add | .subtract | .multiply | .divide =>
    if t = .bool then failAt .typeMismatch span "ARITHMETIC ON BOOL" else .ok ()
  | .modulo | .shiftLeft | .shiftRight =>
    if t.isInteger then .ok () else failAt .typeMismatch span "INTEGER OPERANDS REQUIRED"
  | .and | .or | .xor =>
    if t = .real then failAt .typeMismatch span "LOGIC ON REAL" else .ok ()
  | _ => .ok ()

-- The type an operator works in: shifts keep that of the left operand.
def operatorType (op : BinaryOp) (left right : DataType) : DataType :=
  if op.isShift then left else left.promote right

def binary (span : Span) (op : BinaryOp) (left right : Fragment) : Except Fault Fragment := do
  if mixesBool left.dataType right.dataType then
    failAt .typeMismatch span "BOOL MIXED WITH NUMBER"
  let t := operatorType op left.dataType right.dataType
  checkOperands op t span
  return {
    code := (left.castTo t).code ++ (right.castTo t).code ++ [.binary op t]
    dataType := if op.isComparison then .bool else t }

def negation (span : Span) (operand : Fragment) : Except Fault Fragment :=
  if operand.dataType = .bool then failAt .typeMismatch span "NEGATION OF BOOL"
  else .ok { operand with code := operand.code ++ [.negate operand.dataType] }

def complement (span : Span) (operand : Fragment) : Except Fault Fragment :=
  if operand.dataType = .real then failAt .typeMismatch span "NOT ON REAL"
  else .ok { operand with code := operand.code ++ [.complement operand.dataType] }

def maxArguments : Nat := 4

def signatureFor (span : Span) (name : String) (count : Nat) : Except Fault Signature :=
  match Signature.ofName? name with
  | none => failAt .undefinedFunction span name
  | some s =>
    if maxArguments < count ∨ count ≠ s.arity then
      failAt .wrongArgumentCount span (name ++ " TAKES " ++ toString s.arity ++ " ARGUMENTS")
    else .ok s

def commonType (args : List Fragment) : DataType :=
  (args.map (·.dataType)).foldl DataType.promote .int

def callFragment (args : List Fragment) (f : Builtin) (t : DataType) : Fragment :=
  ⟨(args.map (·.code)).flatten ++ [.call f], t⟩

def call (span : Span) (signature : Signature) (args : List Fragment) :
    Except Fault Fragment :=
  match signature, args with
  | .numeric make _, args =>
    if args.any (·.dataType == .bool) then
      failAt .typeMismatch span "NUMERIC ARGUMENTS REQUIRED"
    else
      let t := commonType args
      .ok (callFragment (args.map (·.castTo t)) (make t) t)
  | .select, [choice, a, b] =>
    if choice.dataType ≠ .bool then failAt .typeMismatch span "SEL SELECTOR MUST BE BOOL"
    else if mixesBool a.dataType b.dataType then
      failAt .typeMismatch span "BOOL MIXED WITH NUMBER"
    else
      let t := a.dataType.promote b.dataType
      .ok (callFragment [choice, a.castTo t, b.castTo t] (.select t) t)
  | .real f, [a] =>
    if a.dataType = .bool then failAt .typeMismatch span "NUMERIC ARGUMENT REQUIRED"
    else .ok (callFragment [a.castTo .real] f .real)
  | .integer f, [a] =>
    if a.dataType = .bool then failAt .typeMismatch span "NUMERIC ARGUMENT REQUIRED"
    else .ok (callFragment [a.castTo .real] f .int)
  | .convert t, [a] => .ok (a.castTo t)
  | _, _ => failAt .internalError span "BUILTIN ARITY"

mutual
def expression (vars : List Variable) : Expression → Except Fault Fragment
  | .integer span n => return .literal (← integerLiteral n span)
  | .real _ x => .ok (.literal (realLiteral x))
  | .bool _ b => .ok (.literal (.bool b))
  | .named span name => do
    let (index, v) ← lookup vars name span
    return ⟨[.load index], v.dataType⟩
  | .negation span (.integer _ n) => return .literal (← integerLiteral (-n) span)
  | .negation _ (.real _ x) => .ok (.literal (negatedRealLiteral x))
  | .negation span e => do negation span (← expression vars e)
  | .complement span e => do complement span (← expression vars e)
  | .binary span op l r => do
    let left ← expression vars l
    let right ← expression vars r
    binary span op left right
  | .call span name args => do
    let signature ← signatureFor span name args.length
    let fragments ← expressions vars args
    call span signature fragments

def expressions (vars : List Variable) : List Expression → Except Fault (List Fragment)
  | [] => .ok []
  | e :: rest => do
    let first ← expression vars e
    let others ← expressions vars rest
    return first :: others
end

def withLine {α : Type} (line : UInt16) (result : Except Fault α) : Except Fault α :=
  result.mapError (·.atLine (some line))

end SoftPlc.Compile
