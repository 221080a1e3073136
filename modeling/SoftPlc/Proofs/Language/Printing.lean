import Mathlib.Data.List.Basic
import SoftPlc.Proofs.Language.Stretches

set_option autoImplicit false

namespace SoftPlc

open Scan

def Scan.isCapital (c : Char) : Bool := decide ('A' ≤ c) && decide (c ≤ 'Z') || c = '_'

def Scan.isName : List Char → Bool
  | [] => false
  | first :: others => isCapital first && others.all fun c => isCapital c || isDigit c

-- The tokens with a text of their own: not the real numbers, which have many, and not what no rule fits.
def Token.isPrintable : Token → Bool
  | .unknown _ | .real _ => false
  | .integer n => decide (n ≤ 4294967295)
  | .ident name => isName name.toList && (Token.reserved? name).isNone
  | _ => true

def print (tokens : List Token) : String := " ".intercalate (tokens.map Token.text)

def Token.Reads (t : Token) : Prop := ∃ c text, t.text.toList = c :: text ∧
  ∀ rest : List Char, (∀ d ∈ rest.head?, d = ' ') →
    piece c (text ++ rest) = .token t (text.length + 1) (text.length + 1)

theorem capital_letter (c : Char) (capital : isCapital c = true) : isLetter c = true := by
  rw [isCapital, Bool.or_eq_true] at capital
  rcases capital with upper | underscore
  · rw [isLetter, upper, Bool.or_true, Bool.true_or]
  · rw [isLetter, underscore, Bool.or_true]

theorem capital_not_digit (c : Char) (capital : isCapital c = true) : ¬ isDigit c = true := by
  intro digit
  have last : c ≤ '9' := by simpa using (Bool.and_eq_true_iff.mp digit).2
  have first : 'A' ≤ c ∨ c = '_' := by
    rw [isCapital, Bool.or_eq_true, Bool.and_eq_true, decide_eq_true_iff, decide_eq_true_iff] at capital
    exact capital.imp And.left of_decide_eq_true
  rcases first with upper | rfl
  · exact absurd (Char.le_trans upper last) (by decide)
  · exact absurd last (by decide)

theorem blank_cases (c : Char) (blank : isBlank c = true) : c = ' ' ∨ c = '\t' ∨ c = '\r' ∨ c = '\n' := by
  simpa [isBlank, or_assoc] using blank

theorem word_char_visible (c : Char) (inside : isWordChar c = true) : isBlank c = false := by
  refine Bool.eq_false_iff.mpr fun blank => ?_
  rcases blank_cases c blank with rfl | rfl | rfl | rfl <;> exact absurd inside (by decide)

theorem name_char (c : Char) (inside : (isCapital c || isDigit c) = true) :
    isWordChar c = true ∧ c.toUpper = c := by
  have bounds : 'A' ≤ c ∧ c ≤ 'Z' ∨ c = '_' ∨ '0' ≤ c ∧ c ≤ '9' := by
    simpa [isCapital, isDigit, or_assoc] using inside
  have small : ¬ 'a' ≤ c := by
    rcases bounds with ⟨-, last⟩ | rfl | ⟨-, last⟩
    · exact fun least => absurd (Char.le_trans least last) (by decide)
    · decide
    · exact fun least => absurd (Char.le_trans least last) (by decide)
  refine ⟨?_, dif_neg fun lower => small lower.1⟩
  rcases (Bool.or_eq_true _ _).mp inside with capital | digit
  · rw [isWordChar, capital_letter c capital, Bool.true_or]
  · rw [isWordChar, digit, Bool.or_true]

theorem word_reads (t : Token) (named : isName t.text.toList = true)
    (told : (Token.reserved? t.text).getD (.ident t.text) = t) : t.Reads := by
  cases spelled : t.text.toList with
  | nil =>
    rw [spelled] at named
    cases named
  | cons c text =>
    rw [spelled, isName, Bool.and_eq_true, List.all_eq_true] at named
    have all : ∀ d ∈ c :: text, isWordChar d = true ∧ d.toUpper = d :=
      List.forall_mem_cons.mpr ⟨name_char c (by rw [named.1, Bool.true_or]), fun d member =>
        name_char d (named.2 d member)⟩
    have same : String.ofList ((c :: text).map Char.toUpper) = t.text := by
      rw [List.map_congr_left fun d member => (all d member).2, List.map_id', ← spelled, String.ofList_toList]
    have first : reader c = word :=
      (if_neg (capital_not_digit c named.1)).trans (if_pos (capital_letter c named.1))
    have inside := (all c List.mem_cons_self).1
    have plain := word_char_plain c inside
    refine ⟨c, text, spelled, fun rest blank => ?_⟩
    have stops : ∀ d ∈ rest.head?, isWordChar d = false := fun d front => blank d front ▸ rfl
    have read := word_run (c :: text) rest (fun d member => (all d member).1) stops
    rw [same, told, List.cons_append] at read
    rw [piece_read c _ (word_char_visible c inside) (other_unopened c _ plain.2.1 plain.2.2), first, read,
      List.length_cons]

theorem reserved_reads (w : Word) : (Token.word w).Reads := by
  have table : ∀ w ∈ Word.all, isName w.text.toList = true ∧
      (Token.reserved? w.text).getD (.ident w.text) = .word w := by
    decide +kernel
  exact word_reads (.word w) (table w w.mem_all).1 (table w w.mem_all).2

theorem positional_digits (digits : List Char) (all : ∀ c ∈ digits, isDigit c = true) :
    positional 10 digits = Nat.ofDigitChars 10 digits 0 := by
  rw [positional, Nat.ofDigitChars_eq_foldl]
  refine List.foldl_ext _ _ 0 fun value c member => ?_
  rw [digitValue, if_pos (all c member), Nat.mul_comm]

theorem decimal_ends (digits : List Char) (used : Nat) (rest : List Char)
    (blank : ∀ d ∈ rest.head?, isBlank d = true) :
    numberOf digits used rest = (integerOf 10 digits digits, used) := by
  match rest with
  | [] => rfl
  | [d] => rcases blank_cases d (blank d rfl) with rfl | rfl | rfl | rfl <;> rfl
  | d :: e :: more => rcases blank_cases d (blank d rfl) with rfl | rfl | rfl | rfl <;> rfl

theorem number_piece (c : Char) (rest : List Char) (digit : isDigit c = true) :
    piece c rest = .token (number (c :: rest)).1 (number (c :: rest)).2 (number (c :: rest)).2 := by
  have plain := digit_plain c digit
  have visible := word_char_visible c (by rw [isWordChar, digit, Bool.or_true])
  have first : reader c = number := if_pos digit
  rw [piece_read c rest visible (other_unopened c rest plain.2.1 plain.2.2), first]

theorem integer_reads (n : Nat) (small : n ≤ greatestInteger) : (Token.integer n).Reads := by
  have text : (Token.integer n).text.toList = Nat.toDigits 10 n := by
    rw [Token.text, Nat.toString_eq_ofList_toDigits, String.toList_ofList]
  have all : ∀ c ∈ Nat.toDigits 10 n, isDigit c = true := fun c member =>
    Nat.isDigit_of_mem_toDigits (by decide) (by decide) member
  have value : positional 10 (Nat.toDigits 10 n) = n :=
    (positional_digits _ all).trans Nat.ofDigitChars_ten_toDigits
  cases spelled : Nat.toDigits 10 n with
  | nil => exact absurd spelled Nat.toDigits_ne_nil
  | cons c digits =>
    rw [spelled] at text all value
    have digit := all c List.mem_cons_self
    have unspaced : (c :: digits).filter (· != '_') = c :: digits :=
      List.filter_eq_self.mpr fun d member => bne_iff_ne.mpr fun same => absurd (all d member) (by rw [same]; decide)
    have spaced : ∀ d ∈ c :: digits, isSpaced d = true := fun d member => by
      rw [isSpaced, all d member, Bool.true_or]
    have same : integerOf 10 (c :: digits) (c :: digits) = .integer n := by
      rw [integerOf, value]
      exact if_pos small
    refine ⟨c, digits, text, fun rest blank => ?_⟩
    have stops : ∀ d ∈ rest.head?, isSpaced d = false := fun d front => blank d front ▸ rfl
    have read := number_run (c :: digits) rest spaced stops
    rw [unspaced, decimal_ends _ _ rest (fun d front => blank d front ▸ rfl), same, List.cons_append] at read
    rw [number_piece c _ digit, read, List.length_cons]

theorem sign_reads (t : Token) (c : Char) (text : List Char) (spelled : t.text.toList = c :: text)
    (other : isBlank c = false ∧ isDigit c = false ∧ isLetter c = false)
    (quiet : text.head? ≠ some '/' ∧ text.head? ≠ some '*') (alone : sign (c :: text) = (t, text.length + 1))
    (blank : ∀ rest, sign (c :: (text ++ ' ' :: rest)) = (t, text.length + 1)) : t.Reads := by
  have first : reader c = sign :=
    (if_neg (Bool.eq_false_iff.mp other.2.1)).trans (if_neg (Bool.eq_false_iff.mp other.2.2))
  refine ⟨c, text, spelled, fun rest space => ?_⟩
  have unopened : ¬ Opens (c :: (text ++ rest)) := by
    have front (d : Char) (next : (text ++ rest).head? = some d) : d = ' ' ∨ text.head? = some d := by
      cases text with
      | nil => exact .inl (space d next)
      | cons e text => exact .inr next
    rw [opens_iff]
    rintro (⟨-, slash⟩ | ⟨-, star⟩)
    · exact (front '/' slash).elim (fun same => absurd same (by decide)) quiet.1
    · exact (front '*' star).elim (fun same => absurd same (by decide)) quiet.2
  have read : sign (c :: (text ++ rest)) = (t, text.length + 1) := by
    cases rest with
    | nil => rwa [List.append_nil]
    | cons d rest =>
      cases space d rfl
      exact blank rest
  rw [piece_read c _ other.1 unopened, first, read]

theorem operator_reads (op : BinaryOp) : (Token.operator op).Reads := by
  cases op with
  | modulo | shiftLeft | shiftRight | and | or | xor => exact word_reads _ (by decide) (by decide)
  | add => exact sign_reads _ '+' [] rfl (by decide) (by decide) rfl fun _ => rfl
  | subtract => exact sign_reads _ '-' [] rfl (by decide) (by decide) rfl fun _ => rfl
  | multiply => exact sign_reads _ '*' [] rfl (by decide) (by decide) rfl fun _ => rfl
  | divide => exact sign_reads _ '/' [] rfl (by decide) (by decide) rfl fun _ => rfl
  | equal => exact sign_reads _ '=' [] rfl (by decide) (by decide) rfl fun _ => rfl
  | notEqual => exact sign_reads _ '<' ['>'] rfl (by decide) (by decide) rfl fun _ => rfl
  | less => exact sign_reads _ '<' [] rfl (by decide) (by decide) rfl fun _ => rfl
  | lessEqual => exact sign_reads _ '<' ['='] rfl (by decide) (by decide) rfl fun _ => rfl
  | greater => exact sign_reads _ '>' [] rfl (by decide) (by decide) rfl fun _ => rfl
  | greaterEqual => exact sign_reads _ '>' ['='] rfl (by decide) (by decide) rfl fun _ => rfl

theorem token_reads (t : Token) (printable : t.isPrintable = true) : t.Reads := by
  cases t with
  | unknown | real => cases printable
  | integer n => exact integer_reads n (of_decide_eq_true printable)
  | bool b => cases b <;> exact word_reads _ (by decide) (by decide)
  | word w => exact reserved_reads w
  | operator op => exact operator_reads op
  | complement => exact word_reads _ (by decide) (by decide)
  | ident name =>
    obtain ⟨named, free⟩ := Bool.and_eq_true_iff.mp printable
    refine word_reads _ named ?_
    rw [Token.text, Option.isNone_iff_eq_none.mp free, Option.getD_none]
  | leftParen => exact sign_reads _ '(' [] rfl (by decide) (by decide) rfl fun _ => rfl
  | rightParen => exact sign_reads _ ')' [] rfl (by decide) (by decide) rfl fun _ => rfl
  | comma => exact sign_reads _ ',' [] rfl (by decide) (by decide) rfl fun _ => rfl
  | colon => exact sign_reads _ ':' [] rfl (by decide) (by decide) rfl fun _ => rfl
  | semicolon => exact sign_reads _ ';' [] rfl (by decide) (by decide) rfl fun _ => rfl
  | assign => exact sign_reads _ ':' ['='] rfl (by decide) (by decide) rfl fun _ => rfl
  | range => exact sign_reads _ '.' ['.'] rfl (by decide) (by decide) rfl fun _ => rfl

-- One token at a time; in front of the next one the blank is passed over.
theorem lexemes_print (p : Position) (t : Token) (tokens : List Token) (reads : ∀ t' ∈ t :: tokens, t'.Reads) :
    (lexemes p 0 (print (t :: tokens)).toList).map (·.token) = t :: tokens := by
  induction tokens generalizing p t with
  | nil =>
    obtain ⟨c, text, spelled, read⟩ := reads t List.mem_cons_self
    have last := lexemes_token p c text [] t _ (read [] (fun _ none => nomatch none))
    rw [List.append_nil] at last
    rw [print, List.map_singleton, String.intercalate_singleton, spelled, last]
    rfl
  | cons t' tokens ih =>
    obtain ⟨c, text, spelled, read⟩ := reads t List.mem_cons_self
    have parts : (print (t :: t' :: tokens)).toList = c :: (text ++ ' ' :: (print (t' :: tokens)).toList) := by
      rw [print, List.map_cons, List.map_cons, String.intercalate_cons_cons, String.toList_append,
        String.toList_append, spelled, List.append_assoc, ← List.map_cons, ← print]
      rfl
    have front : ∀ d ∈ (' ' :: (print (t' :: tokens)).toList).head?, d = ' ' := by
      rintro d ⟨⟩
      rfl
    rw [parts, lexemes_token p c text _ t _ (read _ front), List.map_cons]
    refine congrArg (t :: ·) ?_
    have passed (q : Position) := lexemes_gap q ' ' [] (print (t' :: tokens)).toList rfl
    rw [List.nil_append] at passed
    rw [passed]
    exact ih _ t' (List.forall_mem_cons.mp reads).2

-- The texts of the tokens, the table of reserved words and the readers are apart from each other; here they agree.
theorem scan_print (tokens : List Token) (printable : ∀ t ∈ tokens, t.isPrintable = true) :
    (scan (print tokens)).map (·.token) = tokens := by
  cases tokens with
  | nil => rfl
  | cons t tokens => exact lexemes_print ⟨1, 0⟩ t tokens fun t' member => token_reads t' (printable t' member)

theorem near_misses_are_read_back :
    let tokens : List Token := [.ident "IF_", .word .ifWord, .integer 2, .ident "E5", .leftParen, .operator .multiply,
      .operator .divide, .operator .divide, .integer 4294967295, .range, .ident "_16", .colon, .operator .equal,
      .assign, .bool true, .operator .and, .complement, .ident "TRUE1", .word (.type .int)]
    (∀ t ∈ tokens, t.isPrintable = true) ∧
      print tokens = "IF_ IF 2 E5 ( * / / 4294967295 .. _16 : = := TRUE AND NOT TRUE1 INT" ∧
      (scan (print tokens)).map (·.token) = tokens := by
  intro tokens
  have printable : ∀ t ∈ tokens, t.isPrintable = true := by decide +kernel
  exact ⟨printable, by decide +kernel, scan_print tokens printable⟩

end SoftPlc
