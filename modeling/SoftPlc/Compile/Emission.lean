import SoftPlc.Bytecode.Labels
import SoftPlc.Compile.Program

/-!
Code made in one pass, one instruction behind the other. A jump waits for a symbol, which is placed where
the code for it begins; the jumps get their targets when all of the code is there.
-/
set_option autoImplicit false

namespace SoftPlc.Compile

structure Loop where
  exit : Int
  residue : Nat
deriving DecidableEq, Repr

structure Context where
  loops : List Loop := []
  residue : Nat := 0
  line : UInt16 := 0
deriving DecidableEq, Repr

namespace Context

def atLine (context : Context) (line : UInt16) : Context := { context with line }

def hold (context : Context) (change : Nat → Nat) : Context := { context with residue := change context.residue }

def enter (context : Context) (exit : Int) : Context := { context with loops := ⟨exit, context.residue⟩ :: context.loops }

def leave (context : Context) : Context := { context with loops := context.loops.tail }

end Context

structure Emitter extends Context where
  code : List Instruction := []
  labels : Labels := {}
deriving DecidableEq, Repr

abbrev Emit := StateT Emitter (Except Fault)

def emit (i : Instruction) : Emit Nat := fun e => do
  checkRoom e.line (e.code.length + 1)
  return (e.code.length, { e with code := e.code ++ [i] })

def emitAll : List Instruction → Emit Unit
  | [] => pure ()
  | i :: rest => do
    let _ ← emit i
    emitAll rest

def emitJump (i : Instruction) (symbol : Int) : Emit Unit := do
  let address ← emit i
  modify fun e => { e with labels := e.labels.await address (some e.line) symbol }

def newSymbol : Emit Int := fun e =>
  let (symbol, labels) := e.labels.fresh
  .ok (symbol, { e with labels })

def newSymbols : Nat → Emit (List Int)
  | 0 => pure []
  | n + 1 => do
    let first ← newSymbol
    let others ← newSymbols n
    return first :: others

def place (symbol : Int) : Emit Unit :=
  modify fun e => { e with labels := e.labels.place symbol e.code.length }

def enterLoop (exit : Int) : Emit Unit := fun e => do
  checkLoops e.loops.length
  return ((), { e with toContext := e.toContext.enter exit })

def changeContext (change : Context → Context) : Emit Unit := modify fun e => { e with toContext := change e.toContext }

def inLine {α : Type} (line : UInt16) (make : Emit α) : Emit α := fun e =>
  withLine line (make { e with toContext := e.toContext.atLine line })

def Counting.advance (c : Counting) : List Instruction :=
  [.load c.index] ++ c.step ++ [.binary .add c.dataType, .store c.index]

def emitCompare (c : Counting) (op : BinaryOp) (exit : Int) : Emit Unit := do
  emitAll [.duplicate, .load c.index, .binary op c.dataType]
  emitJump (.jumpIfFalse 0) exit

def emitCountingTest (c : Counting) (body exit : Int) : Emit Unit :=
  match c.down with
  | some down => emitCompare c (if down then .lessEqual else .greaterEqual) exit
  | none => do
    let down ← newSymbol
    emitAll (c.step ++ [.push (.zero c.dataType), .binary .less c.dataType])
    emitJump (.jumpIfTrue 0) down
    emitCompare c .greaterEqual exit
    emitJump (.jump 0) body
    place down
    emitCompare c .lessEqual exit

def emitLabelTest (span : Span) (t : DataType) (arm : Int) : CaseLabel → Emit Unit
  | .single n => do
    emitAll [.duplicate]
    let v ← labelValue n t span
    emitAll [.push v, .binary .equal t]
    emitJump (.jumpIfTrue 0) arm
  | .range low high => do
    let skip ← newSymbol
    emitAll [.duplicate]
    let l ← labelValue low t span
    emitAll [.push l, .binary .greaterEqual t]
    emitJump (.jumpIfFalse 0) skip
    emitAll [.duplicate]
    let h ← labelValue high t span
    emitAll [.push h, .binary .lessEqual t]
    emitJump (.jumpIfTrue 0) arm
    place skip

def emitLabelTests (span : Span) (t : DataType) (arm : Int) : List CaseLabel → Emit Unit
  | [] => pure ()
  | label :: rest => do
    emitLabelTest span t arm label
    emitLabelTests span t arm rest

def emitArmTests (span : Span) (t : DataType) :
    List (List CaseLabel × List Statement) → List Int → Emit Unit
  | (labels, _) :: rest, symbol :: symbols => do
    emitLabelTests span t symbol labels
    emitArmTests span t rest symbols
  | _, _ => pure ()

def emitExit (span : Span) : Emit Unit := fun e =>
  match e.loops with
  | [] => failAt .exitOutsideLoop span ""
  | loop :: _ => (do
    emitAll (List.replicate (e.residue - loop.residue) .discard)
    emitJump (.jump 0) loop.exit : Emit Unit) e

variable (vars : List Variable)

mutual
def emitStatement (s : Statement) : Emit Unit :=
  inLine s.line <| match s with
  | .assign _ span name value => do
    let code ← assignment vars span name value
    emitAll code
  | .choose _ branches otherwise => do
    let stop ← newSymbol
    emitBranches stop branches
    emitBlock otherwise
    place stop
  | .select _ e arms otherwise => do
    let f ← selector vars e
    emitAll f.code
    let stop ← newSymbol
    let symbols ← newSymbols arms.length
    emitArmTests e.span f.dataType arms symbols
    emitAll [.discard]
    emitBlock otherwise
    emitJump (.jump 0) stop
    emitArms stop arms symbols
    place stop
  | .count _ span name first last step body => do
    let c ← counting vars span name first last step
    emitAll c.start
    changeContext (·.hold (· + 1))
    let top ← newSymbol
    let start ← newSymbol
    let exit ← newSymbol
    place top
    emitCountingTest c start exit
    place start
    enterLoop exit
    emitBlock body
    changeContext .leave
    emitAll c.advance
    emitJump (.jump 0) top
    place exit
    emitAll [.discard]
    changeContext (·.hold (· - 1))
  | .while _ cond body => do
    let top ← newSymbol
    let exit ← newSymbol
    place top
    let test ← condition vars cond
    emitAll test
    emitJump (.jumpIfFalse 0) exit
    enterLoop exit
    emitBlock body
    changeContext .leave
    emitJump (.jump 0) top
    place exit
  | .repeat _ body cond => do
    let top ← newSymbol
    let exit ← newSymbol
    place top
    enterLoop exit
    emitBlock body
    changeContext .leave
    let test ← condition vars cond
    emitAll test
    emitJump (.jumpIfFalse 0) top
    place exit
  | .exit _ span => emitExit span
  | .leave _ => emitAll [.halt]

def emitBlock : List Statement → Emit Unit
  | [] => pure ()
  | s :: rest => do
    emitStatement s
    emitBlock rest

def emitBranches (stop : Int) : List (Expression × List Statement) → Emit Unit
  | [] => pure ()
  | (cond, body) :: rest => do
    let next ← newSymbol
    let test ← condition vars cond
    emitAll test
    emitJump (.jumpIfFalse 0) next
    emitBlock body
    emitJump (.jump 0) stop
    place next
    emitBranches stop rest

def emitArms (stop : Int) : List (List CaseLabel × List Statement) → List Int → Emit Unit
  | (_, body) :: rest, symbol :: symbols => do
    place symbol
    emitAll [.discard]
    emitBlock body
    emitJump (.jump 0) stop
    emitArms stop rest symbols
  | _, _ => pure ()
end

def Emitter.finish (e : Emitter) : Except Fault (List Instruction) :=
  match e.labels.link e.code with
  | (some f, _, _) => .error f
  | (none, code, _) => .ok code

end Compile

open Compile

def SourceProgram.emit (p : SourceProgram) (vars : List Variable) : Except Fault Emitter := do
  let (_, e) ← (do emitBlock vars p.body; emitAll [.halt] : Emit Unit) {}
  return e

def SourceProgram.link (p : SourceProgram) : Except Fault Bytecode := do
  let vars ← declareAll [] p.declarations
  let e ← p.emit vars
  let code ← e.finish
  return { name := p.name, code, vars }

end SoftPlc
