import SoftPlc.Language.Token
import SoftPlc.Language.Tree

/-!
Recursive descent from tokens to parsed programs. A failure points at the last token that was
taken. Nested rules and repetitions are bounded by a depth that grows with the number of
unread tokens; since every round of them takes a token, the bound is never met.
-/
set_option autoImplicit false

namespace SoftPlc

structure Cursor where
  rest : List Lexeme
  line : UInt16 := 1
  span : Span := Span.unknown
deriving Repr

abbrev Parser := StateT Cursor (Except Fault)

namespace Parser

variable {α : Type}

def fail (message : String) : Parser α := fun c =>
  .error { kind := .syntaxError, line := some c.line, span := c.span, message }

def tooDeep : Parser α := fun _ => .error (.because .internalError "RULES NESTED TOO DEEPLY")

def next : Parser (Option Token) := fun c =>
  match c.rest with
  | [] => .ok (none, c)
  | l :: rest => .ok (some l.token, ⟨rest, l.line, l.span⟩)

def peek : Parser (Option Token) := fun c =>
  .ok (c.rest.head?.map (·.token), c)

def skip : Parser Unit := do
  let _ ← next

def here : Parser UInt16 := fun c => .ok (c.line, c)

def columns : Parser Span := fun c => .ok (c.span, c)

def accept (t : Token) : Parser Bool := do
  if (← peek) = some t then
    skip
    return true
  else return false

def expect (t : Token) : Parser Unit := do
  match ← next with
  | some found =>
    if found = t then return ()
    else fail ("EXPECTED " ++ t.text ++ " BUT FOUND " ++ found.text)
  | none => fail ("EXPECTED " ++ t.text)

def expectWord (w : Word) : Parser Unit := expect (.word w)

def identifier : Parser String := do
  match ← next with
  | some (.ident name) => return name
  | _ => fail "EXPECTED IDENTIFIER"

def optionalSemicolon : Parser Unit := do
  let _ ← accept .semicolon

def bindingStrength : BinaryOp → Nat
  | .or | .xor => 1
  | .and => 2
  | .equal | .notEqual | .less | .lessEqual | .greater | .greaterEqual => 3
  | .add | .subtract => 4
  | .multiply | .divide | .modulo | .shiftLeft | .shiftRight => 5

mutual
def operation (depth strength : Nat) : Parser Expression :=
  match depth with
  | 0 => tooDeep
  | depth + 1 => do
    let left ← operand depth
    operationsAfter depth strength left

def operationsAfter (depth strength : Nat) (left : Expression) : Parser Expression :=
  match depth with
  | 0 => tooDeep
  | depth + 1 => do
    match ← peek with
    | some (.operator op) =>
      if bindingStrength op < strength then return left
      else
        skip
        let span ← columns
        let right ← operation depth (bindingStrength op + 1)
        operationsAfter depth strength (.binary span op left right)
    | _ => return left

def operand (depth : Nat) : Parser Expression :=
  match depth with
  | 0 => tooDeep
  | depth + 1 => do
    match ← peek with
    | some (.operator .subtract) =>
      skip
      let span ← columns
      let e ← operand depth
      return .negation span e
    | some .complement =>
      skip
      let span ← columns
      let e ← operand depth
      return .complement span e
    | _ => primary depth

def primary (depth : Nat) : Parser Expression :=
  match depth with
  | 0 => tooDeep
  | depth + 1 => do
    match ← next with
    | some .leftParen =>
      let e ← operation depth 0
      expect .rightParen
      return e
    | some (.ident name) =>
      let span ← columns
      if ← accept .leftParen then
        if ← accept .rightParen then return .call span name []
        else
          let args ← arguments depth
          return .call span name args
      else return .named span name
    | some (.integer n) => return .integer (← columns) n
    | some (.real x) => return .real (← columns) x
    | some (.bool b) => return .bool (← columns) b
    | _ => fail "EXPECTED EXPRESSION"

def arguments (depth : Nat) : Parser (List Expression) :=
  match depth with
  | 0 => tooDeep
  | depth + 1 => do
    let first ← operation depth 0
    match ← next with
    | some .rightParen => return [first]
    | some .comma =>
      let others ← arguments depth
      return first :: others
    | _ => fail "EXPECTED ) OR ,"
end

def roomFor (c : Cursor) : Nat := 4 * c.rest.length + 8

def expression : Parser Expression := fun c => operation (roomFor c) 0 c

def signedInteger : Parser Int := do
  let negative ← accept (.operator .subtract)
  match ← next with
  | some (.integer n) => return if negative then -(n : Int) else n
  | _ => fail "EXPECTED INTEGER CASE LABEL"

def caseLabel : Parser CaseLabel := do
  let low ← signedInteger
  if ← accept .range then
    let high ← signedInteger
    if high < low then fail "EMPTY CASE RANGE"
    else return .range low high
  else return .single low

def caseLabels (depth : Nat) : Parser (List CaseLabel) :=
  match depth with
  | 0 => tooDeep
  | depth + 1 => do
    let first ← caseLabel
    match ← next with
    | some .comma =>
      let others ← caseLabels depth
      return first :: others
    | some .colon => return [first]
    | _ => fail "EXPECTED : AFTER CASE LABEL"

def beginsStatement : Token → Bool
  | .ident _ => true
  | .word w =>
    match w with
    | .ifWord | .caseWord | .forWord | .while | .repeat | .exit | .returnWord => true
    | _ => false
  | _ => false

mutual
def block (depth : Nat) : Parser (List Statement) :=
  match depth with
  | 0 => tooDeep
  | depth + 1 => do
    match ← peek with
    | some .semicolon =>
      skip
      block depth
    | some t =>
      if beginsStatement t then
        let first ← statement depth
        let others ← block depth
        return first :: others
      else return []
    | none => return []

def statement (depth : Nat) : Parser Statement :=
  match depth with
  | 0 => tooDeep
  | depth + 1 => do
    let t ← next
    let line ← here
    let span ← columns
    match t with
    | some (.ident name) =>
      expect .assign
      let value ← expression
      expect .semicolon
      return .assign line span name value
    | some (.word .ifWord) =>
      let condition ← expression
      expectWord .thenWord
      let body ← block depth
      let (branches, otherwise) ← branchesAfter depth
      optionalSemicolon
      return .choose line ((condition, body) :: branches) otherwise
    | some (.word .caseWord) =>
      let selector ← expression
      expectWord .ofWord
      let (arms, otherwise) ← caseArms depth
      optionalSemicolon
      return .select line selector arms otherwise
    | some (.word .forWord) =>
      let name ← identifier
      let span ← columns
      expect .assign
      let first ← expression
      expectWord .toWord
      let last ← expression
      let step ← if ← accept (.word .byWord) then (do return some (← expression))
        else pure none
      expectWord .doWord
      let body ← block depth
      expectWord .endFor
      optionalSemicolon
      return .count line span name first last step body
    | some (.word .while) =>
      let condition ← expression
      expectWord .doWord
      let body ← block depth
      expectWord .endWhile
      optionalSemicolon
      return .while line condition body
    | some (.word .repeat) =>
      let body ← block depth
      expectWord .until
      let condition ← expression
      expectWord .endRepeat
      optionalSemicolon
      return .repeat line body condition
    | some (.word .exit) =>
      expect .semicolon
      return .exit line span
    | some (.word .returnWord) =>
      expect .semicolon
      return .leave line
    | some t => fail ("UNEXPECTED " ++ t.text)
    | none => fail "EXPECTED STATEMENT"

def branchesAfter (depth : Nat) :
    Parser (List (Expression × List Statement) × List Statement) :=
  match depth with
  | 0 => tooDeep
  | depth + 1 => do
    match ← next with
    | some (.word .elsif) =>
      let condition ← expression
      expectWord .thenWord
      let body ← block depth
      let (branches, otherwise) ← branchesAfter depth
      return ((condition, body) :: branches, otherwise)
    | some (.word .elseWord) =>
      let otherwise ← block depth
      expectWord .endIf
      return ([], otherwise)
    | some (.word .endIf) => return ([], [])
    | _ => fail "EXPECTED END_IF"

def caseArms (depth : Nat) :
    Parser (List (List CaseLabel × List Statement) × List Statement) :=
  match depth with
  | 0 => tooDeep
  | depth + 1 => do
    match ← peek with
    | some (.word .elseWord) =>
      skip
      let otherwise ← block depth
      expectWord .endCase
      return ([], otherwise)
    | some (.word .endCase) =>
      skip
      return ([], [])
    | _ =>
      let labels ← caseLabels depth
      let body ← block depth
      let (arms, otherwise) ← caseArms depth
      return ((labels, body) :: arms, otherwise)
end

def declaredNames (depth : Nat) : Parser (List (UInt16 × Span × String)) :=
  match depth with
  | 0 => tooDeep
  | depth + 1 => do
    let name ← identifier
    let place := (← here, ← columns, name)
    match ← next with
    | some .comma =>
      let others ← declaredNames depth
      return place :: others
    | some .colon => return [place]
    | _ => fail "EXPECTED : AFTER VARIABLE NAME"

def declarations (variableClass : VariableClass) : Parser (List Declaration) := do
  let names ← (fun c => declaredNames (roomFor c) c : Parser _)
  match ← next with
  | some (.word (.type dataType)) =>
    let exported ← accept (.word .exported)
    let initializer ← if ← accept .assign then (do return some (← expression))
      else pure none
    expect .semicolon
    return names.map fun (line, span, name) =>
      { line, span, name, dataType, variableClass, exported, initializer }
  | _ => fail "EXPECTED DATA TYPE (BOOL, INT, DINT, DWORD, REAL)"

def declarationBlock (variableClass : VariableClass) (depth : Nat) :
    Parser (List Declaration) :=
  match depth with
  | 0 => tooDeep
  | depth + 1 => do
    match ← peek with
    | some (.word .endVar) =>
      skip
      optionalSemicolon
      return []
    | some (.ident _) =>
      let first ← declarations variableClass
      let others ← declarationBlock variableClass depth
      return first ++ others
    | _ =>
      skip
      fail "EXPECTED END_VAR"

def blockClass? : Token → Option VariableClass
  | .word .var => some .ordinary
  | .word .varInput => some .input
  | .word .varOutput => some .output
  | _ => none

def declarationBlocks (depth : Nat) : Parser (List Declaration) :=
  match depth with
  | 0 => tooDeep
  | depth + 1 => do
    match (← peek).bind blockClass? with
    | none => return []
    | some opened =>
      skip
      let variableClass ←
        if opened = .ordinary then
          (do return if ← accept (.word .constant) then .constant else .ordinary)
        else pure opened
      let first ← declarationBlock variableClass depth
      let others ← declarationBlocks depth
      return first ++ others

def program : Parser SourceProgram := do
  let wrapped ← accept (.word .program)
  let name ← if wrapped then (do return some (← identifier)) else pure none
  let declarations ← (fun c => declarationBlocks (roomFor c) c : Parser _)
  let _ ← accept (.word .begin)
  let body ← (fun c => block (roomFor c) c : Parser _)
  if wrapped then
    expectWord .endProgram
    optionalSemicolon
  match ← next with
  | none => return { name, declarations, body }
  | some t => fail ("UNEXPECTED " ++ t.text)

end Parser

def parse (tokens : List Lexeme) : Except Fault SourceProgram :=
  (Parser.program ⟨tokens, 1, Span.unknown⟩).map (·.1)

end SoftPlc
