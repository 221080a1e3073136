import SoftPlc.Bytecode.Program
import SoftPlc.Machine.Stack

/-!
The stack machine. One machine is one run of a program on a copy of its variables. A fault
leaves the machine at the faulting instruction with its variables as they were.
-/
set_option autoImplicit false

namespace SoftPlc

structure Frame where
  pc : Nat
  stack : List Value
  vars : List Value
  steps : UInt32
deriving DecidableEq, Repr

structure Machine where
  pc : Nat := 0
  stack : List Value := []
  vars : List Value
  steps : UInt32 := 0
  halted : Bool := false
  fault : Option Fault := none
deriving DecidableEq, Repr

namespace Machine

def bound : Stack.Bound := ⟨64, "OPERAND STACK (MAX 64)"⟩

def defaultMaxSteps : UInt32 := 10000

def startValues : List Value → List Value → List Value
  | initial :: rest, v :: values =>
    (if initial.dataType = v.dataType then v else initial) :: startValues rest values
  | rest, [] => rest
  | [], _ => []

def start (b : Bytecode) (values : List Value) : Machine :=
  { vars := startValues b.initialValues values }

def resume (frame : Frame) : Machine :=
  let machine : Machine := { pc := frame.pc, vars := frame.vars, steps := frame.steps }
  if bound.depth < frame.stack.length then
    { machine with fault := some (.because .stackOverflow bound.overflow) }
  else { machine with stack := frame.stack }

def frame (m : Machine) : Frame := ⟨m.pc, m.stack, m.vars, m.steps⟩

def isRunning (m : Machine) : Bool := !m.halted && m.fault.isNone

abbrev Attempt := Stack.Attempt Value

def popTyped (t : DataType) (s : List Value) : Attempt (Value × List Value) := do
  let (v, s) ← Stack.pop s
  if v.dataType = t then return (v, s)
  else .error (.because .typeMismatch ("EXPECTED " ++ t.name), s)

def popBool (s : List Value) : Attempt (Bool × List Value) := do
  match ← popTyped .bool s with
  | (.bool b, s) => return (b, s)
  | (_, s) => .error (.of .internalError, s)

def pushResult (result : Except Fault Value) (s : List Value) : Attempt (List Value) :=
  match result with
  | .ok v => Stack.push bound v s
  | .error f => .error (f, s)

-- The operands of a binary operator. The right one of a comparison is checked first; that
-- of any other operator is left to the operator.
def operands (op : BinaryOp) (t : DataType) (s : List Value) :
    Attempt ((Value × Value) × List Value) := do
  let (right, s) ← if op.isComparison then popTyped t s else Stack.pop s
  let (left, s) ← popTyped t s
  return ((left, right), s)

structure Effect where
  stack : List Value
  vars : List Value
  target : Option Nat := none
  halts : Bool := false
deriving DecidableEq, Repr

def loadVariable (vars s : List Value) (index : Nat) : Attempt Effect :=
  match vars[index]? with
  | some v => do return { stack := ← Stack.push bound v s, vars }
  | none => .error (.because .variableOutOfBounds ("LOAD " ++ toString index), s)

def storeVariable (vars s : List Value) (index : Nat) : Attempt Effect := do
  let (v, s) ← Stack.pop s
  match vars[index]? with
  | some old =>
    if old.dataType = v.dataType then return { stack := s, vars := vars.set index v }
    else .error (.because .typeMismatch ("STORE " ++ toString index), s)
  | none => .error (.because .variableOutOfBounds ("STORE " ++ toString index), s)

def perform (vars s : List Value) : Instruction → Attempt Effect
  | .push v => do return { stack := ← Stack.push bound v s, vars }
  | .load index => loadVariable vars s index
  | .store index => storeVariable vars s index
  | .duplicate =>
    match s with
    | [] => .error (.of .stackUnderflow, [])
    | v :: _ => do return { stack := ← Stack.push bound v s, vars }
  | .discard => do
    let (_, s) ← Stack.pop s
    return { stack := s, vars }
  | .cast t => do
    let (v, s) ← Stack.pop s
    return { stack := ← Stack.push bound (v.cast t) s, vars }
  | .binary op t => do
    let ((left, right), s) ← operands op t s
    return { stack := ← pushResult (op.apply left right) s, vars }
  | .negate t => do
    let (v, s) ← popTyped t s
    return { stack := ← pushResult v.negate s, vars }
  | .complement t => do
    let (v, s) ← popTyped t s
    return { stack := ← pushResult v.complement s, vars }
  | .jump a => return { stack := s, vars, target := some a }
  | .jumpIfFalse a => do
    let (b, s) ← popBool s
    return { stack := s, vars, target := if b then none else some a }
  | .jumpIfTrue a => do
    let (b, s) ← popBool s
    return { stack := s, vars, target := if b then some a else none }
  | .call f => do
    let (args, s) ← Stack.popMany f.arity s
    return { stack := ← pushResult (f.call args) s, vars }
  | .nop => return { stack := s, vars }
  | .halt => return { stack := s, vars, halts := true }
  | .illegal byte => .error (.because .unknownOpcode ("0x" ++ Text.hex 2 byte.toNat), s)

def step (b : Bytecode) (m : Machine) : Machine :=
  if !m.isRunning then m
  else
    let counted := { m with steps := m.steps + 1 }
    match b.code[m.pc]? with
    | none =>
      { counted with fault := some (.because .internalError "PROGRAM COUNTER OUT OF RANGE") }
    | some i =>
      match perform m.vars m.stack i with
      | .error (fault, stack) => { counted with fault := some fault, stack }
      | .ok effect =>
        { counted with
          pc := effect.target.getD (m.pc + 1)
          stack := effect.stack
          vars := effect.vars
          halted := effect.halts }

def outOfSteps (maxSteps : UInt32) : Fault :=
  .because .maxStepsExceeded (toString maxSteps.toNat ++ " STEPS")

def remaining (maxSteps : UInt32) (m : Machine) : Nat := maxSteps.toNat - m.steps.toNat

def runFor (b : Bytecode) (maxSteps : UInt32) (left : Nat) (m : Machine) : Machine :=
  if m.isRunning then
    match left with
    | 0 => { m with fault := some (outOfSteps maxSteps) }
    | left + 1 => runFor b maxSteps left (m.step b)
  else m

def run (b : Bytecode) (maxSteps : UInt32) (m : Machine) : Machine :=
  runFor b maxSteps (m.remaining maxSteps) m

def outcome (m : Machine) : Except Fault Unit :=
  if m.halted then .ok ()
  else match m.fault with
    | some f => .error f
    | none => .ok ()

end Machine

end SoftPlc
