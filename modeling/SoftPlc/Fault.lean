set_option autoImplicit false

namespace SoftPlc

-- A range of character columns on one line, counted from zero; the end is exclusive.
structure Span where
  start : Nat
  stop : Nat
deriving DecidableEq, Repr, Inhabited

def Span.unknown : Span := ⟨0, 0⟩

inductive Fault.Kind where
  | syntaxError
  | undefinedVariable
  | duplicateVariable
  | typeMismatch
  | constantAssignment
  | exitOutsideLoop
  | undefinedFunction
  | wrongArgumentCount
  | tooManyVariables
  | programTooLong
  | stackOverflow
  | stackUnderflow
  | divisionByZero
  | unknownOpcode
  | variableOutOfBounds
  | illegalFunctionCall
  | maxStepsExceeded
  | poolFull
  | poolExhausted
  | invalidProgramId
  | invalidBreakpoint
  | invalidTarget
  | invalidInterval
  | notCompiled
  | configCorrupt
  | unsupportedVersion
  | fileNotFound
  | internalError
deriving DecidableEq, Repr, Inhabited

def Fault.Kind.code : Fault.Kind → Nat
  | .syntaxError => 2
  | .undefinedVariable => 3
  | .duplicateVariable => 4
  | .typeMismatch => 5
  | .constantAssignment => 6
  | .exitOutsideLoop => 7
  | .undefinedFunction => 8
  | .wrongArgumentCount => 9
  | .tooManyVariables => 10
  | .programTooLong => 11
  | .stackOverflow => 20
  | .stackUnderflow => 21
  | .divisionByZero => 22
  | .unknownOpcode => 23
  | .variableOutOfBounds => 24
  | .illegalFunctionCall => 25
  | .maxStepsExceeded => 26
  | .poolFull => 40
  | .poolExhausted => 41
  | .invalidProgramId => 42
  | .invalidBreakpoint => 43
  | .invalidTarget => 44
  | .invalidInterval => 45
  | .notCompiled => 46
  | .configCorrupt => 60
  | .unsupportedVersion => 61
  | .fileNotFound => 62
  | .internalError => 99

def Fault.Kind.title : Fault.Kind → String
  | .syntaxError => "SYNTAX ERROR"
  | .undefinedVariable => "UNDEFINED VARIABLE"
  | .duplicateVariable => "DUPLICATE VARIABLE"
  | .typeMismatch => "TYPE MISMATCH"
  | .constantAssignment => "ASSIGNMENT TO CONSTANT"
  | .exitOutsideLoop => "EXIT OUTSIDE LOOP"
  | .undefinedFunction => "UNDEFINED FUNCTION"
  | .wrongArgumentCount => "WRONG NUMBER OF ARGUMENTS"
  | .tooManyVariables => "TOO MANY VARIABLES"
  | .programTooLong => "PROGRAM TOO LONG"
  | .stackOverflow => "STACK OVERFLOW"
  | .stackUnderflow => "STACK UNDERFLOW"
  | .divisionByZero => "DIVISION BY ZERO"
  | .unknownOpcode => "UNKNOWN OPCODE"
  | .variableOutOfBounds => "VARIABLE INDEX OUT OF BOUNDS"
  | .illegalFunctionCall => "ILLEGAL FUNCTION CALL"
  | .maxStepsExceeded => "MAX STEPS EXCEEDED"
  | .poolFull => "SOURCE POOL FULL"
  | .poolExhausted => "IR POOL EXHAUSTED"
  | .invalidProgramId => "INVALID PROGRAM ID"
  | .invalidBreakpoint => "INVALID BREAKPOINT"
  | .invalidTarget => "INVALID TARGET"
  | .invalidInterval => "INVALID INTERVAL"
  | .notCompiled => "PROGRAM NOT COMPILED"
  | .configCorrupt => "CONFIG CORRUPT"
  | .unsupportedVersion => "UNSUPPORTED CONFIG VERSION"
  | .fileNotFound => "FILE NOT FOUND"
  | .internalError => "INTERNAL ERROR"

structure Fault where
  kind : Fault.Kind
  line : Option UInt16 := none
  span : Span := Span.unknown
  message : String := ""
deriving DecidableEq, Repr, Inhabited

namespace Fault

def of (kind : Kind) : Fault := { kind }

def because (kind : Kind) (message : String) : Fault := { kind, message }

def atLine (f : Fault) (line : Option UInt16) : Fault :=
  { f with line := f.line <|> line }

def atSpan (f : Fault) (span : Span) : Fault :=
  if f.span = Span.unknown then { f with span } else f

def saying (f : Fault) (message : String) : Fault :=
  { f with message }

def place (f : Fault) : String :=
  let line := match f.line with
    | some n => " LINE " ++ toString n.toNat
    | none => ""
  let columns :=
    if f.span = Span.unknown then ""
    else " (" ++ toString f.span.start ++ ".." ++ toString f.span.stop ++ ")"
  let both := line ++ columns
  if both = "" then "" else " IN" ++ both

def render (f : Fault) : String :=
  f.kind.title ++ f.place ++ (if f.message = "" then "" else "; " ++ f.message)

def renderInBraces (f : Fault) : String :=
  "Error \x7b " ++ f.render ++ " \x7d"

end Fault

-- What a call answers with the state behind it, which a refusal has too.
abbrev Answer (σ α : Type) := Except Fault α × σ

theorem bind_ok {ε α β : Type} (x : Except ε α) (next : α → Except ε β) (r : β) :
    x >>= next = .ok r ↔ ∃ a, x = .ok a ∧ next a = .ok r := by
  cases x <;> simp [bind, Except.bind]

end SoftPlc
