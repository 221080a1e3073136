import SoftPlc.Language.Token

set_option autoImplicit false

namespace SoftPlc.Scan

open Numeric

def isBlank (c : Char) : Bool :=
  c = ' ' || c = '\t' || c = '\r' || c = '\n'

def isDigit (c : Char) : Bool := decide ('0' ≤ c) && decide (c ≤ '9')

def isLetter (c : Char) : Bool :=
  decide ('a' ≤ c) && decide (c ≤ 'z') || decide ('A' ≤ c) && decide (c ≤ 'Z') || c = '_'

def isWordChar (c : Char) : Bool := isLetter c || isDigit c

def digitValue (c : Char) : Nat :=
  if isDigit c then c.toNat - '0'.toNat
  else if 'a' ≤ c then c.toNat - 'a'.toNat + 10
  else c.toNat - 'A'.toNat + 10

def isDigitOf (radix : Nat) (c : Char) : Bool :=
  (isLetter c && c != '_' || isDigit c) && decide (digitValue c < radix)

def positional (radix : Nat) (digits : List Char) : Nat :=
  digits.foldl (fun value c => value * radix + digitValue c) 0

def greatestInteger : Nat := 4294967295

abbrev Read := Token × Nat

def integerOf (radix : Nat) (digits : List Char) (text : List Char) : Token :=
  let value := positional radix digits
  if value ≤ greatestInteger then .integer value else .unknown (String.ofList text)

def basedNumber (radix : Nat) (mark : List Char) (used : Nat) (cs : List Char) : Read :=
  let run := cs.takeWhile fun c => isDigitOf radix c || c = '_'
  let digits := run.filter (· != '_')
  match cs.drop run.length with
  | c :: _ =>
    if isWordChar c then
      (.unknown (String.ofList (mark ++ digits ++ [c])), used + run.length + 1)
    else if digits.isEmpty then (.unknown (String.ofList mark), used + run.length)
    else (integerOf radix digits (mark ++ digits), used + run.length)
  | [] =>
    if digits.isEmpty then (.unknown (String.ofList mark), used + run.length)
    else (integerOf radix digits (mark ++ digits), used + run.length)

def fractionPart : List Char → List Char × Nat
  | '.' :: d :: rest =>
    if isDigit d then
      let run := (d :: rest).takeWhile fun c => isDigit c || c = '_'
      (run.filter (· != '_'), run.length + 1)
    else ([], 0)
  | _ => ([], 0)

def exponentPart : List Char → Option (List Char × List Char × Nat)
  | e :: d :: rest =>
    if e = 'e' ∨ e = 'E' then
      if d = '+' ∨ d = '-' then
        let run := rest.takeWhile isDigit
        some ([d], run, run.length + 2)
      else if isDigit d then
        let run := (d :: rest).takeWhile isDigit
        some ([], run, run.length + 1)
      else none
    else none
  | _ => none

def realOf (whole fraction sign exponent : List Char) : Double :=
  let power : Int := positional 10 exponent
  let signed := if sign = ['-'] then -power else power
  Double.ofDecimal (positional 10 (whole ++ fraction)) (signed - fraction.length)

def decimalNumber (digits : List Char) (used : Nat) (rest : List Char) : Read :=
  let (fraction, fractionLength) := fractionPart rest
  match exponentPart (rest.drop fractionLength) with
  | some (sign, exponent, exponentLength) =>
    let length := used + fractionLength + exponentLength
    if exponent.isEmpty then
      let point := if fractionLength = 0 then [] else '.' :: fraction
      (.unknown (String.ofList (digits ++ point ++ 'E' :: sign)), length)
    else (.real (realOf digits fraction sign exponent), length)
  | none =>
    if fractionLength = 0 then (integerOf 10 digits digits, used)
    else (.real (realOf digits fraction [] []), used + fractionLength)

def number (cs : List Char) : Read :=
  let run := cs.takeWhile fun c => isDigit c || c = '_'
  let digits := run.filter (· != '_')
  let rest := cs.drop run.length
  let used := run.length
  match rest with
  | 'x' :: after | 'X' :: after =>
    if digits = ['0'] then basedNumber 16 ['0', 'X'] (used + 1) after
    else decimalNumber digits used rest
  | '#' :: after =>
    if digits = ['2'] then basedNumber 2 ['2', '#'] (used + 1) after
    else if digits = ['8'] then basedNumber 8 ['8', '#'] (used + 1) after
    else if digits = ['1', '6'] then basedNumber 16 ['1', '6', '#'] (used + 1) after
    else (.unknown (String.ofList (digits ++ ['#'])), used + 1)
  | _ => decimalNumber digits used rest

def word (cs : List Char) : Read :=
  let run := cs.takeWhile isWordChar
  let name := String.ofList (run.map Char.toUpper)
  ((Token.reserved? name).getD (.ident name), run.length)

def sign : List Char → Read
  | ':' :: '=' :: _ => (.assign, 2)
  | '<' :: '=' :: _ => (.operator .lessEqual, 2)
  | '<' :: '>' :: _ => (.operator .notEqual, 2)
  | '>' :: '=' :: _ => (.operator .greaterEqual, 2)
  | '.' :: '.' :: _ => (.range, 2)
  | ':' :: _ => (.colon, 1)
  | '<' :: _ => (.operator .less, 1)
  | '>' :: _ => (.operator .greater, 1)
  | '=' :: _ => (.operator .equal, 1)
  | '+' :: _ => (.operator .add, 1)
  | '-' :: _ => (.operator .subtract, 1)
  | '*' :: _ => (.operator .multiply, 1)
  | '/' :: _ => (.operator .divide, 1)
  | '&' :: _ => (.operator .and, 1)
  | '(' :: _ => (.leftParen, 1)
  | ')' :: _ => (.rightParen, 1)
  | ',' :: _ => (.comma, 1)
  | ';' :: _ => (.semicolon, 1)
  | c :: _ => (.unknown (String.ofList [c]), 1)
  | [] => (.unknown "", 0)

def commentEnd : List Char → Option Nat
  | '*' :: ')' :: _ => some 2
  | _ :: rest => (commentEnd rest).map (· + 1)
  | [] => none

inductive Piece where
  | gap (length : Nat)
  | token (t : Token) (width length : Nat)

-- The first piece of a text that starts with `c`. A block comment without an end is an
-- unknown token as wide as its opening and takes the rest of the text.
def piece (c : Char) (rest : List Char) : Piece :=
  if isBlank c then .gap 1
  else if c = '/' ∧ rest.head? = some '/' then
    .gap (rest.takeWhile (· != '\n')).length.succ
  else if c = '(' ∧ rest.head? = some '*' then
    match commentEnd (rest.drop 1) with
    | some length => .gap (length + 2)
    | none => .token (.unknown "(*") 2 (rest.length + 1)
  else
    let (t, length) :=
      if isDigit c then number (c :: rest)
      else if isLetter c then word (c :: rest)
      else sign (c :: rest)
    .token t length length

structure Position where
  line : UInt16
  column : Nat
deriving DecidableEq, Repr

def Position.after (p : Position) (c : Char) : Position :=
  if c = '\n' then ⟨if p.line = 65535 then p.line else p.line + 1, 0⟩
  else ⟨p.line, p.column + 1⟩

def lexemes (p : Position) (pending : Nat) : List Char → List Lexeme
  | [] => []
  | c :: rest =>
    match pending with
    | pending + 1 => lexemes (p.after c) pending rest
    | 0 =>
      match piece c rest with
      | .gap length => lexemes (p.after c) (length - 1) rest
      | .token t width length =>
        ⟨t, p.line, ⟨p.column, p.column + width⟩⟩ :: lexemes (p.after c) (length - 1) rest

end SoftPlc.Scan

namespace SoftPlc

def scan (source : String) : List Lexeme :=
  Scan.lexemes ⟨1, 0⟩ 0 source.toList

end SoftPlc
