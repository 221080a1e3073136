set_option autoImplicit false

namespace SoftPlc.Text

-- The code points of the characters with the White_Space property.
def blankCodes : List Nat :=
  [0x9, 0xa, 0xb, 0xc, 0xd, 0x20, 0x85, 0xa0, 0x1680, 0x2000, 0x2001, 0x2002, 0x2003, 0x2004,
    0x2005, 0x2006, 0x2007, 0x2008, 0x2009, 0x200a, 0x2028, 0x2029, 0x202f, 0x205f, 0x3000]

def isBlank (c : Char) : Bool := blankCodes.contains c.toNat

theorem isBlank_of_isWhitespace (c : Char) (h : c.isWhitespace = true) : isBlank c = true := by
  simp only [Char.isWhitespace, Bool.or_eq_true, decide_eq_true_eq] at h
  rcases h with (((h | h) | h) | h) <;> subst h <;> decide

def trimEnd (s : String) : String :=
  String.ofList ((s.toList.reverse.dropWhile isBlank).reverse)

def partsFrom (part : List Char) : List Char → List (List Char)
  | [] => if part.isEmpty then [] else [part]
  | c :: rest =>
    if isBlank c then
      if part.isEmpty then partsFrom [] rest else part :: partsFrom [] rest
    else partsFrom (part ++ [c]) rest

def parts (s : String) : List String :=
  (partsFrom [] s.toList).map String.ofList

def padLeft (width : Nat) (s : String) : String :=
  String.ofList (List.replicate (width - s.length) ' ' ++ s.toList)

def padRight (width : Nat) (s : String) : String :=
  String.ofList (s.toList ++ List.replicate (width - s.length) ' ')

def hex (width n : Nat) : String :=
  let digits := (Nat.toDigits 16 n).map Char.toUpper
  String.ofList (List.replicate (width - digits.length) '0' ++ digits)

def upper (s : String) : String :=
  String.ofList (s.toList.map Char.toUpper)

def lower (s : String) : String :=
  String.ofList (s.toList.map Char.toLower)

def truncate (limit : Nat) (s : String) : String :=
  String.ofList (s.toList.take limit)

def lines (parts : List String) : String :=
  String.join (parts.map (· ++ "\n"))

def isDecimalDigit (c : Char) : Bool := decide ('0' ≤ c) && decide (c ≤ '9')

def decimal (digits : List Char) : Nat :=
  digits.foldl (fun n c => n * 10 + (c.toNat - '0'.toNat)) 0

def unsigned? (limit : Nat) (s : String) : Option Nat :=
  let digits := match s.toList with
    | '+' :: rest => rest
    | all => all
  if digits.isEmpty || !digits.all isDecimalDigit then none
  else if decimal digits ≤ limit then some (decimal digits) else none

end SoftPlc.Text
