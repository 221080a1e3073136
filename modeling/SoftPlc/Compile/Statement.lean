import SoftPlc.Compile.Expression

/-!
Code for statements. The code of a statement is made for the address it will stand at, so
its jumps are final, all but those of EXIT, which wait for the end of the loop around them.
A statement that leaves a value on the stack while its body runs takes it off at its end, so
every statement starts and ends at the same depth of the stack.
-/
set_option autoImplicit false

namespace SoftPlc.Compile

inductive Item where
  | op (i : Instruction)
  | exit
deriving DecidableEq, Repr

namespace Item

def leaveTo (address : Nat) : Item → Item
  | .op i => .op i
  | .exit => .op (.jump address)

def instruction : Item → Instruction
  | .op i => i
  | .exit => .nop

end Item

def ops (code : List Instruction) : List Item := code.map .op

def maxLoops : Nat := 8

mutual
def lastLine : Statement → UInt16
  | .assign line .. | .exit line _ | .leave line => line
  | .choose line branches otherwise => lastLineOf (lastLineOfBranches line branches) otherwise
  | .select line _ arms otherwise => lastLineOfArms (lastLineOf line otherwise) arms
  | .count line _ _ _ _ _ body | .while line _ body | .repeat line body _ =>
    lastLineOf line body

def lastLineOf (line : UInt16) : List Statement → UInt16
  | [] => line
  | s :: rest => lastLineOf (lastLine s) rest

def lastLineOfBranches (line : UInt16) : List (Expression × List Statement) → UInt16
  | [] => line
  | (_, body) :: rest => lastLineOfBranches (lastLineOf line body) rest

def lastLineOfArms (line : UInt16) : List (List CaseLabel × List Statement) → UInt16
  | [] => line
  | (_, body) :: rest => lastLineOfArms (lastLineOf line body) rest
end

def checkRoom (line : UInt16) (stop : Nat) : Except Fault Unit :=
  if stop ≤ Bytecode.maxInstructions then .ok ()
  else .error {
    kind := .programTooLong
    line := some line
    message := "MORE THAN " ++ toString Bytecode.maxInstructions ++ " INSTRUCTIONS" }

def checkLoops (loops : Nat) : Except Fault Unit :=
  if loops < maxLoops then .ok ()
  else .error (.because .syntaxError "LOOPS NESTED TOO DEEPLY")

variable (vars : List Variable)

def condition (e : Expression) : Except Fault (List Instruction) := do
  let f ← expression vars e
  if f.dataType ≠ .bool then failAt .typeMismatch e.span "CONDITION MUST BE BOOL"
  return f.code

def target (name : String) (span : Span) : Except Fault (Nat × DataType) := do
  let (index, v) ← lookup vars name span
  if v.variableClass = .constant then failAt .constantAssignment span name
  return (index, v.dataType)

def assignment (span : Span) (name : String) (value : Expression) :
    Except Fault (List Instruction) := do
  let (index, t) ← target vars name span
  let f ← expression vars value
  if mixesBool f.dataType t then
    failAt .typeMismatch value.span ("CANNOT ASSIGN " ++ f.dataType.name ++ " TO " ++ t.name)
  return (f.castTo t).code ++ [.store index]

def labelValue (n : Int) (t : DataType) (span : Span) : Except Fault Value :=
  let refused : Except Fault Value :=
    failAt .typeMismatch span
      ("CASE LABEL " ++ toString n ++ " OUT OF RANGE FOR " ++ t.name)
  match t with
  | .int => if -32768 ≤ n ∧ n < 32768 then .ok (.int (Int16.ofInt n)) else refused
  | .dint => if -2147483648 ≤ n ∧ n < 2147483648 then .ok (.dint (Int32.ofInt n)) else refused
  | _ => if 0 ≤ n ∧ n < 4294967296 then .ok (.dword (UInt32.ofInt n)) else refused

structure LabelTest where
  label : CaseLabel
  low : Value
  high : Value
deriving DecidableEq, Repr

def testLength : CaseLabel → Nat
  | .single _ => 4
  | .range _ _ => 8

-- The literals of a label's test, which will stand at `base`. Each is looked at when the
-- code before it has found room.
def labelTest (line : UInt16) (span : Span) (t : DataType) (base : Nat) (label : CaseLabel) :
    Except Fault LabelTest := do
  checkRoom line (base + 1)
  match label with
  | .single n =>
    let v ← labelValue n t span
    checkRoom line (base + 4)
    return ⟨label, v, v⟩
  | .range low high =>
    let l ← labelValue low t span
    checkRoom line (base + 5)
    let h ← labelValue high t span
    checkRoom line (base + 8)
    return ⟨label, l, h⟩

def labelTests (line : UInt16) (span : Span) (t : DataType) (base : Nat) :
    List CaseLabel → Except Fault (List LabelTest)
  | [] => .ok []
  | label :: rest => do
    let first ← labelTest line span t base label
    let others ← labelTests line span t (base + testLength label) rest
    return first :: others

def total (lengths : List Nat) : Nat := lengths.foldr (· + ·) 0

@[simp]
theorem total_nil : total [] = 0 := rfl

@[simp]
theorem total_cons (length : Nat) (lengths : List Nat) : total (length :: lengths) = length + total lengths := rfl

def testsLength (labels : List CaseLabel) : Nat := total (labels.map testLength)

def LabelTest.code (test : LabelTest) (t : DataType) (base arm : Nat) : List Instruction :=
  match test.label with
  | .single _ => [.duplicate, .push test.low, .binary .equal t, .jumpIfTrue arm]
  | .range _ _ =>
    [.duplicate, .push test.low, .binary .greaterEqual t, .jumpIfFalse (base + 8),
      .duplicate, .push test.high, .binary .lessEqual t, .jumpIfTrue arm]

def testsCode (t : DataType) (arm : Nat) (base : Nat) : List LabelTest → List Instruction
  | [] => []
  | test :: rest =>
    test.code t base arm ++ testsCode t arm (base + testLength test.label) rest

def armTests (line : UInt16) (span : Span) (t : DataType) (base : Nat) :
    List (List CaseLabel × List Statement) → Except Fault (List (List LabelTest))
  | [] => .ok []
  | (labels, _) :: rest => do
    let first ← labelTests line span t base labels
    let others ← armTests line span t (base + testsLength labels) rest
    return first :: others

def armTestsCode (t : DataType) (base : Nat) :
    List (List LabelTest) → List Nat → List Instruction
  | tests :: rest, arm :: arms =>
    let code := testsCode t arm base tests
    code ++ armTestsCode t (base + code.length) rest arms
  | _, _ => []

def addresses (base : Nat) : List Nat → List Nat
  | [] => []
  | length :: rest => base :: addresses (base + length) rest

structure Counting where
  index : Nat
  dataType : DataType
  first : List Instruction
  last : List Instruction
  step : List Instruction
  -- Whether the loop counts down, where that is known.
  down : Option Bool
deriving DecidableEq, Repr

def bound (t : DataType) (e : Expression) : Except Fault (List Instruction) := do
  let f ← expression vars e
  if f.dataType = .bool then failAt .typeMismatch e.span "FOR BOUND MUST BE NUMERIC"
  return (f.castTo t).code

def counting (span : Span) (name : String) (first last : Expression)
    (step : Option Expression) : Except Fault Counting := do
  let (index, t) ← target vars name span
  if !t.isInteger then failAt .typeMismatch span "FOR NEEDS AN INTEGER VARIABLE"
  let firstCode ← bound vars t first
  let lastCode ← bound vars t last
  match step with
  | none => return ⟨index, t, firstCode, lastCode, [.push ((Value.int 1).cast t)], some false⟩
  | some by_ =>
    let stepCode ← bound vars t by_
    return ⟨index, t, firstCode, lastCode, stepCode, by_.integerConstant.map (· < 0)⟩

namespace Counting

variable (c : Counting)

def start : List Instruction := c.first ++ [.store c.index] ++ c.last

def compare (op : BinaryOp) (exit : Nat) : List Instruction :=
  [.duplicate, .load c.index, .binary op c.dataType, .jumpIfFalse exit]

def testLength : Nat :=
  match c.down with
  | some _ => 4
  | none => c.step.length + 12

def test (top exit : Nat) : List Instruction :=
  match c.down with
  | some true => c.compare .lessEqual exit
  | some false => c.compare .greaterEqual exit
  | none =>
    let body := top + c.testLength
    c.step ++ [.push (.zero c.dataType), .binary .less c.dataType, .jumpIfTrue (body - 4)] ++
      c.compare .greaterEqual exit ++ [.jump body] ++ c.compare .lessEqual exit

def finish (top : Nat) : List Instruction :=
  [.load c.index] ++ c.step ++ [.binary .add c.dataType, .store c.index, .jump top, .discard]

end Counting

def selector (e : Expression) : Except Fault Fragment := do
  let f ← expression vars e
  if !f.dataType.isInteger then failAt .typeMismatch e.span "CASE NEEDS AN INTEGER"
  return f

def caseCode (base : Nat) (selector : Fragment) (tests : List (List LabelTest))
    (otherwise : List Item) (arms : List (List Item)) : List Item :=
  let testsAt := base + selector.code.length
  let testsLength := total (tests.map fun arm => testsLength (arm.map (·.label)))
  let armsAt := testsAt + testsLength + otherwise.length + 2
  let lengths := arms.map (·.length + 2)
  let stop := armsAt + total lengths
  ops selector.code ++
    ops (armTestsCode selector.dataType testsAt tests (addresses armsAt lengths)) ++
    [.op .discard] ++ otherwise ++ [.op (.jump stop)] ++
    (arms.map fun body => [.op .discard] ++ body ++ [.op (.jump stop)]).flatten

mutual
def statement (loops base : Nat) (s : Statement) : Except Fault (List Item) :=
  withLine s.line <| match s with
  | .assign line span name value => do
    let code ← assignment vars span name value
    checkRoom line (base + code.length)
    return ops code
  | .choose line branches otherwise =>
    choice loops base line (fun base => block loops base otherwise) branches
  | .select line e arms otherwise => do
    let f ← selector vars e
    let testsAt := base + f.code.length
    checkRoom line testsAt
    let tests ← armTests line e.span f.dataType testsAt arms
    let elseAt := testsAt + total (arms.map fun arm => testsLength arm.1) + 1
    checkRoom line elseAt
    let elseCode ← block loops elseAt otherwise
    let armsAt := elseAt + elseCode.length + 1
    checkRoom (lastLineOf line otherwise) armsAt
    let bodies ← armBodies loops armsAt (lastLineOf line otherwise) arms
    return caseCode base f tests elseCode bodies
  | .count line span name first last step body => do
    let c ← counting vars span name first last step
    let top := base + c.start.length
    let bodyAt := top + c.testLength
    checkRoom line bodyAt
    checkLoops loops
    let code ← block (loops + 1) bodyAt body
    let tail := c.finish top
    let stop := bodyAt + code.length + tail.length
    checkRoom (lastLineOf line body) stop
    let exit := stop - 1
    return ops c.start ++ ops (c.test top exit) ++ code.map (·.leaveTo exit) ++ ops tail
  | .while line cond body => do
    let test ← condition vars cond
    let bodyAt := base + test.length + 1
    checkRoom line bodyAt
    checkLoops loops
    let code ← block (loops + 1) bodyAt body
    let exit := bodyAt + code.length + 1
    checkRoom (lastLineOf line body) exit
    return ops test ++ [.op (.jumpIfFalse exit)] ++ code.map (·.leaveTo exit) ++
      [.op (.jump base)]
  | .repeat line body cond => do
    checkLoops loops
    let code ← block (loops + 1) base body
    let test ← condition vars cond
    let exit := base + code.length + test.length + 1
    checkRoom (lastLineOf line body) exit
    return code.map (·.leaveTo exit) ++ ops test ++ [.op (.jumpIfFalse base)]
  | .exit line span => do
    if loops = 0 then failAt .exitOutsideLoop span ""
    checkRoom line (base + 1)
    return [.exit]
  | .leave line => do
    checkRoom line (base + 1)
    return [.op .halt]

def block (loops base : Nat) : List Statement → Except Fault (List Item)
  | [] => .ok []
  | s :: rest => do
    let first ← statement loops base s
    let others ← block loops (base + first.length) rest
    return first ++ others

def choice (loops base : Nat) (line : UInt16)
    (elseCode : Nat → Except Fault (List Item)) :
    List (Expression × List Statement) → Except Fault (List Item)
  | [] => elseCode base
  | (cond, body) :: rest => do
    let test ← condition vars cond
    let bodyAt := base + test.length + 1
    checkRoom line bodyAt
    let code ← block loops bodyAt body
    let next := bodyAt + code.length + 1
    checkRoom (lastLineOf line body) next
    let others ← choice loops next (lastLineOf line body) elseCode rest
    return ops test ++ [.op (.jumpIfFalse next)] ++ code ++
      [.op (.jump (next + others.length))] ++ others

def armBodies (loops base : Nat) (line : UInt16) :
    List (List CaseLabel × List Statement) → Except Fault (List (List Item))
  | [] => .ok []
  | (_, body) :: rest => do
    checkRoom line (base + 1)
    let code ← block loops (base + 1) body
    let next := base + code.length + 2
    checkRoom (lastLineOf line body) next
    let others ← armBodies loops next (lastLineOf line body) rest
    return code :: others
end

end SoftPlc.Compile
