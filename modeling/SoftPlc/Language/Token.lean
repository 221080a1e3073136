import SoftPlc.Fault
import SoftPlc.Numeric.Float
import SoftPlc.Value.DataType
import SoftPlc.Value.Operator

set_option autoImplicit false

namespace SoftPlc

open Numeric

inductive Word where
  | program
  | endProgram
  | begin
  | var
  | varInput
  | varOutput
  | constant
  | endVar
  | exported
  | ifWord
  | thenWord
  | elsif
  | elseWord
  | endIf
  | caseWord
  | ofWord
  | endCase
  | forWord
  | toWord
  | byWord
  | doWord
  | endFor
  | while
  | endWhile
  | repeat
  | until
  | endRepeat
  | exit
  | returnWord
  | type (t : DataType)
deriving DecidableEq, Repr

namespace Word

def text : Word → String
  | .program => "PROGRAM"
  | .endProgram => "END_PROGRAM"
  | .begin => "BEGIN"
  | .var => "VAR"
  | .varInput => "VAR_INPUT"
  | .varOutput => "VAR_OUTPUT"
  | .constant => "CONSTANT"
  | .endVar => "END_VAR"
  | .exported => "EXPORT"
  | .ifWord => "IF"
  | .thenWord => "THEN"
  | .elsif => "ELSIF"
  | .elseWord => "ELSE"
  | .endIf => "END_IF"
  | .caseWord => "CASE"
  | .ofWord => "OF"
  | .endCase => "END_CASE"
  | .forWord => "FOR"
  | .toWord => "TO"
  | .byWord => "BY"
  | .doWord => "DO"
  | .endFor => "END_FOR"
  | .while => "WHILE"
  | .endWhile => "END_WHILE"
  | .repeat => "REPEAT"
  | .until => "UNTIL"
  | .endRepeat => "END_REPEAT"
  | .exit => "EXIT"
  | .returnWord => "RETURN"
  | .type t => t.name

def all : List Word :=
  [.program, .endProgram, .begin, .var, .varInput, .varOutput, .constant, .endVar, .exported,
    .ifWord, .thenWord, .elsif, .elseWord, .endIf, .caseWord, .ofWord, .endCase, .forWord,
    .toWord, .byWord, .doWord, .endFor, .while, .endWhile, .repeat, .until, .endRepeat, .exit,
    .returnWord] ++ DataType.all.map .type

theorem mem_all (w : Word) : w ∈ all := by
  cases w with
  | type t => cases t <;> decide
  | _ => decide

end Word

inductive Token where
  | unknown (text : String)
  | integer (n : Nat)
  | real (x : Double)
  | bool (b : Bool)
  | word (w : Word)
  | operator (op : BinaryOp)
  | complement
  | ident (name : String)
  | leftParen
  | rightParen
  | comma
  | colon
  | semicolon
  | assign
  | range
deriving DecidableEq, Repr

namespace Token

def text : Token → String
  | .unknown s => s
  | .integer n => toString n
  | .real x => x.render
  | .bool b => if b then "TRUE" else "FALSE"
  | .word w => w.text
  | .operator op => op.symbol
  | .complement => "NOT"
  | .ident name => name
  | .leftParen => "("
  | .rightParen => ")"
  | .comma => ","
  | .colon => ":"
  | .semicolon => ";"
  | .assign => ":="
  | .range => ".."

def specialWords : List (String × Token) :=
  [("CONST", .word .constant), ("TRUE", .bool true), ("FALSE", .bool false),
    ("MOD", .operator .modulo), ("SHL", .operator .shiftLeft), ("SHR", .operator .shiftRight),
    ("AND", .operator .and), ("OR", .operator .or), ("XOR", .operator .xor),
    ("NOT", .complement)]

def reserved? (word : String) : Option Token :=
  match Word.all.find? (·.text == word) with
  | some w => some (.word w)
  | none => (specialWords.find? (·.1 == word)).map (·.2)

end Token

structure Lexeme where
  token : Token
  line : UInt16
  span : Span
deriving DecidableEq, Repr

end SoftPlc
