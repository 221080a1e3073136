import SoftPlc.Language.Parser

set_option autoImplicit false

namespace SoftPlc.Parser

inductive Call where
  | operation (strength : Nat)
  | operationsAfter (strength : Nat) (left : Expression)
  | operand
  | primary
  | arguments
  | caseLabels
  | block
  | statement
  | branchesAfter
  | caseArms
  | declaredNames
  | declarationBlock (variableClass : VariableClass)
  | declarationBlocks

@[reducible] def Call.Answer : Call → Type
  | .operation _ | .operationsAfter _ _ | .operand | .primary => Expression
  | .arguments => List Expression
  | .caseLabels => List CaseLabel
  | .block => List Statement
  | .statement => Statement
  | .branchesAfter => List (Expression × List Statement) × List Statement
  | .caseArms => List (List CaseLabel × List Statement) × List Statement
  | .declaredNames => List (UInt16 × Span × String)
  | .declarationBlock _ | .declarationBlocks => List Declaration

abbrev Rules := (k : Call) → Parser k.Answer

def lineBy (call : Rules) (variableClass : VariableClass) : Parser (List Declaration) := do
  let names ← call .declaredNames
  match ← next with
  | some (.word (.type dataType)) =>
    let exported ← accept (.word .exported)
    let initializer ← if ← accept .assign then (do return some (← call (.operation 0)))
      else pure none
    expect .semicolon
    return names.map fun (line, span, name) =>
      { line, span, name, dataType, variableClass, exported, initializer }
  | _ => fail "EXPECTED DATA TYPE (BOOL, INT, DINT, DWORD, REAL)"

def body (call : Rules) : Rules
  | .operation strength => do
    let left ← call .operand
    call (.operationsAfter strength left)
  | .operationsAfter strength left => do
    match ← peek with
    | some (.operator op) =>
      if bindingStrength op < strength then return left
      else
        skip
        let span ← columns
        let right ← call (.operation (bindingStrength op + 1))
        call (.operationsAfter strength (.binary span op left right))
    | _ => return left
  | .operand => do
    match ← peek with
    | some (.operator .subtract) =>
      skip
      let span ← columns
      let e ← call .operand
      return .negation span e
    | some .complement =>
      skip
      let span ← columns
      let e ← call .operand
      return .complement span e
    | _ => call .primary
  | .primary => do
    match ← next with
    | some .leftParen =>
      let e ← call (.operation 0)
      expect .rightParen
      return e
    | some (.ident name) =>
      let span ← columns
      if ← accept .leftParen then
        if ← accept .rightParen then return .call span name []
        else
          let args ← call .arguments
          return .call span name args
      else return .named span name
    | some (.integer n) => return .integer (← columns) n
    | some (.real x) => return .real (← columns) x
    | some (.bool b) => return .bool (← columns) b
    | _ => fail "EXPECTED EXPRESSION"
  | .arguments => do
    let first ← call (.operation 0)
    match ← next with
    | some .rightParen => return [first]
    | some .comma =>
      let others ← call .arguments
      return first :: others
    | _ => fail "EXPECTED ) OR ,"
  | .caseLabels => do
    let first ← caseLabel
    match ← next with
    | some .comma =>
      let others ← call .caseLabels
      return first :: others
    | some .colon => return [first]
    | _ => fail "EXPECTED : AFTER CASE LABEL"
  | .block => do
    match ← peek with
    | some .semicolon =>
      skip
      call .block
    | some t =>
      if beginsStatement t then
        let first ← call .statement
        let others ← call .block
        return first :: others
      else return []
    | none => return []
  | .statement => do
    let t ← next
    let line ← here
    let span ← columns
    match t with
    | some (.ident name) =>
      expect .assign
      let value ← call (.operation 0)
      expect .semicolon
      return .assign line span name value
    | some (.word .ifWord) =>
      let condition ← call (.operation 0)
      expectWord .thenWord
      let body ← call .block
      let (branches, otherwise) ← call .branchesAfter
      optionalSemicolon
      return .choose line ((condition, body) :: branches) otherwise
    | some (.word .caseWord) =>
      let selector ← call (.operation 0)
      expectWord .ofWord
      let (arms, otherwise) ← call .caseArms
      optionalSemicolon
      return .select line selector arms otherwise
    | some (.word .forWord) =>
      let name ← identifier
      let span ← columns
      expect .assign
      let first ← call (.operation 0)
      expectWord .toWord
      let last ← call (.operation 0)
      let step ← if ← accept (.word .byWord) then (do return some (← call (.operation 0)))
        else pure none
      expectWord .doWord
      let body ← call .block
      expectWord .endFor
      optionalSemicolon
      return .count line span name first last step body
    | some (.word .while) =>
      let condition ← call (.operation 0)
      expectWord .doWord
      let body ← call .block
      expectWord .endWhile
      optionalSemicolon
      return .while line condition body
    | some (.word .repeat) =>
      let body ← call .block
      expectWord .until
      let condition ← call (.operation 0)
      expectWord .endRepeat
      optionalSemicolon
      return .repeat line body condition
    | some (.word .exit) =>
      expect .semicolon
      return .exit line span
    | some (.word .returnWord) =>
      expect .semicolon
      return .leave line
    | some t => fail ("UNEXPECTED " ++ t.text)
    | none => fail "EXPECTED STATEMENT"
  | .branchesAfter => do
    match ← next with
    | some (.word .elsif) =>
      let condition ← call (.operation 0)
      expectWord .thenWord
      let body ← call .block
      let (branches, otherwise) ← call .branchesAfter
      return ((condition, body) :: branches, otherwise)
    | some (.word .elseWord) =>
      let otherwise ← call .block
      expectWord .endIf
      return ([], otherwise)
    | some (.word .endIf) => return ([], [])
    | _ => fail "EXPECTED END_IF"
  | .caseArms => do
    match ← peek with
    | some (.word .elseWord) =>
      skip
      let otherwise ← call .block
      expectWord .endCase
      return ([], otherwise)
    | some (.word .endCase) =>
      skip
      return ([], [])
    | _ =>
      let labels ← call .caseLabels
      let body ← call .block
      let (arms, otherwise) ← call .caseArms
      return ((labels, body) :: arms, otherwise)
  | .declaredNames => do
    let name ← identifier
    let place := (← here, ← columns, name)
    match ← next with
    | some .comma =>
      let others ← call .declaredNames
      return place :: others
    | some .colon => return [place]
    | _ => fail "EXPECTED : AFTER VARIABLE NAME"
  | .declarationBlock variableClass => do
    match ← peek with
    | some (.word .endVar) =>
      skip
      optionalSemicolon
      return []
    | some (.ident _) =>
      let first ← lineBy call variableClass
      let others ← call (.declarationBlock variableClass)
      return first ++ others
    | _ =>
      skip
      fail "EXPECTED END_VAR"
  | .declarationBlocks => do
    match (← peek).bind blockClass? with
    | none => return []
    | some opened =>
      skip
      let variableClass ←
        if opened = .ordinary then
          (do return if ← accept (.word .constant) then .constant else .ordinary)
        else pure opened
      let first ← call (.declarationBlock variableClass)
      let others ← call .declarationBlocks
      return first ++ others

def within (depth : Nat) : Rules
  | .operation strength => operation depth strength
  | .operationsAfter strength left => operationsAfter depth strength left
  | .operand => operand depth
  | .primary => primary depth
  | .arguments => arguments depth
  | .caseLabels => caseLabels depth
  | .block => block depth
  | .statement => statement depth
  | .branchesAfter => branchesAfter depth
  | .caseArms => caseArms depth
  | .declaredNames => declaredNames depth
  | .declarationBlock variableClass => declarationBlock variableClass depth
  | .declarationBlocks => declarationBlocks depth

def running : Rules := fun k c => within (roomFor c) k c

def below (depth : Nat) : Rules
  | .operation strength => running (.operation strength)
  | .declaredNames => running .declaredNames
  | k => within depth k

theorem within_body (k : Call) :
    (∀ depth, within (depth + 1) k = body (within depth) k) ∨ ∀ depth, within (depth + 1) k = body (below depth) k := by
  cases k with
  | operation | operationsAfter | operand | primary | arguments | caseLabels | declaredNames => exact .inl fun _ => rfl
  | block | statement | branchesAfter | caseArms | declarationBlock | declarationBlocks => exact .inr fun _ => rfl

def programBy (call : Rules) : Parser SourceProgram := do
  let wrapped ← accept (.word .program)
  let name ← if wrapped then (do return some (← identifier)) else pure none
  let declarations ← call .declarationBlocks
  let _ ← accept (.word .begin)
  let body ← call .block
  if wrapped then
    expectWord .endProgram
    optionalSemicolon
  match ← next with
  | none => return { name, declarations, body }
  | some t => fail ("UNEXPECTED " ++ t.text)

def Call.rank : Call → Nat
  | .arguments => 3
  | .operation _ => 2
  | .operand | .block | .caseArms | .declarationBlock _ => 1
  | _ => 0

def Smaller (inner outer : Call × Cursor) : Prop :=
  inner.2.rest.length < outer.2.rest.length ∨
    inner.2.rest.length = outer.2.rest.length ∧ inner.1.rank < outer.1.rank

theorem rank_le (k : Call) : k.rank ≤ 3 := by
  cases k <;> simp [Call.rank]

def size (call : Call × Cursor) : Nat := 4 * call.2.rest.length + call.1.rank + 1

theorem size_smaller (inner outer : Call × Cursor) (smaller : Smaller inner outer) : size inner < size outer := by
  have low := rank_le inner.1
  unfold Smaller at smaller
  unfold size
  omega

theorem smaller_well_founded : WellFounded Smaller :=
  Subrelation.wf (fun {inner outer} => size_smaller inner outer) (measure size).wf

theorem size_allowed (k : Call) (c : Cursor) : size (k, c) ≤ roomFor c := by
  have low := rank_le k
  simp only [size, roomFor]
  omega

end SoftPlc.Parser
