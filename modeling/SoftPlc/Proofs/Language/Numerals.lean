import Mathlib.Data.Nat.Digits.Defs
import SoftPlc.Proofs.Language.Printing

set_option autoImplicit false

namespace SoftPlc.Scan

def DigitOf (radix : Nat) (c : Char) (d : Nat) : Prop :=
  d < radix ∧ (c = d.digitChar ∨ c = d.digitChar.toUpper)

instance (radix : Nat) (c : Char) (d : Nat) : Decidable (DigitOf radix c d) := inferInstanceAs (Decidable (_ ∧ _))

-- Digits of a radix in the order that they are written in, the highest place first, with underscores among them.
inductive Spelled (radix : Nat) : List Char → List Nat → Prop where
  | done : Spelled radix [] []
  | underscore (cs : List Char) (ds : List Nat) (behind : Spelled radix cs ds) : Spelled radix ('_' :: cs) ds
  | digit (c : Char) (d : Nat) (cs : List Char) (ds : List Nat) (first : DigitOf radix c d)
      (behind : Spelled radix cs ds) : Spelled radix (c :: cs) (d :: ds)

inductive Mark : List Char → Nat → List Char → Prop where
  | none : Mark [] 10 []
  | binary : Mark ['2', '#'] 2 ['2', '#']
  | octal : Mark ['8', '#'] 8 ['8', '#']
  | hexadecimal : Mark ['1', '6', '#'] 16 ['1', '6', '#']
  | zero (x : Char) (letter : x = 'x' ∨ x = 'X') : Mark ['0', x] 16 ['0', 'X']

def ReadAs (c : Char) (d : Nat) : Prop :=
  digitValue c = d ∧ c ≠ '_' ∧ (isLetter c && c != '_' || isDigit c) = true ∧ (d < 10 → isDigit c = true)

instance (c : Char) (d : Nat) : Decidable (ReadAs c d) := inferInstanceAs (Decidable (_ ∧ _ ∧ _ ∧ _))

theorem digit_read (c : Char) (d : Nat) (digit : DigitOf 16 c d) : ReadAs c d := by
  have table : ∀ d : Fin 16, ReadAs d.val.digitChar d ∧ ReadAs d.val.digitChar.toUpper d := by decide
  obtain ⟨small, rfl | rfl⟩ := digit
  · exact (table ⟨d, small⟩).1
  · exact (table ⟨d, small⟩).2

theorem DigitOf.widen {radix : Nat} (small : radix ≤ 16) {c : Char} {d : Nat} (digit : DigitOf radix c d) :
    DigitOf 16 c d :=
  ⟨Nat.lt_of_lt_of_le digit.1 small, digit.2⟩

section
variable {radix : Nat} (small : radix ≤ 16) {cs : List Char} {ds : List Nat} (spelled : Spelled radix cs ds)
include small spelled

theorem spelled_values : (cs.filter (· != '_')).map digitValue = ds := by
  induction spelled with
  | done => rfl
  | underscore cs ds behind ih => exact ih
  | digit c d cs ds first behind ih =>
    obtain ⟨value, visible, -⟩ := digit_read c d (first.widen small)
    rw [List.filter_cons_of_pos (by simpa using visible), List.map_cons, value, ih]

theorem spelled_positional : positional radix (cs.filter (· != '_')) = Nat.ofDigits radix ds.reverse := by
  rw [positional, Nat.ofDigits_eq_foldr, List.foldr_reverse, ← spelled_values small spelled, List.foldl_map]
  refine List.foldl_ext _ _ 0 fun value c _ => ?_
  rw [Nat.cast_id, Nat.mul_comm, Nat.add_comm]

theorem spelled_inside : ∀ c ∈ cs, (isDigitOf radix c || decide (c = '_')) = true := by
  induction spelled with
  | done => exact fun _ none => nomatch none
  | underscore cs ds behind ih => exact List.forall_mem_cons.mpr ⟨by simp, ih⟩
  | digit c d cs ds first behind ih =>
    obtain ⟨value, -, shape, -⟩ := digit_read c d (first.widen small)
    refine List.forall_mem_cons.mpr ⟨?_, ih⟩
    rw [isDigitOf, shape, value, decide_eq_true first.1, Bool.and_true, Bool.true_or]

end

theorem spelled_spaced {cs : List Char} {ds : List Nat} (spelled : Spelled 10 cs ds) : ∀ c ∈ cs, isSpaced c = true := by
  induction spelled with
  | done => exact fun _ none => nomatch none
  | underscore cs ds behind ih => exact List.forall_mem_cons.mpr ⟨rfl, ih⟩
  | digit c d cs ds first behind ih =>
    obtain ⟨-, -, -, digit⟩ := digit_read c d (first.widen (by decide))
    exact List.forall_mem_cons.mpr ⟨by rw [isSpaced, digit first.1, Bool.true_or], ih⟩

theorem blank_ends (c : Char) (blank : isBlank c = true) (radix : Nat) :
    isSpaced c = false ∧ isWordChar c = false ∧ (isDigitOf radix c || decide (c = '_')) = false := by
  rcases blank_cases c blank with rfl | rfl | rfl | rfl <;> exact ⟨rfl, rfl, rfl⟩

section
variable {mark told : List Char} {radix : Nat} (marked : Mark mark radix told)
include marked

theorem Mark.small : radix ≤ 16 := by
  cases marked <;> decide

theorem marked_number (given : mark ≠ []) (after : List Char) :
    number (mark ++ after) = basedNumber radix told mark.length after := by
  cases marked with
  | none => exact absurd rfl given
  | binary | octal | hexadecimal => rfl
  | zero x letter => rcases letter with rfl | rfl <;> rfl

theorem Mark.begins {first : Char} {d : Nat} (digit : DigitOf radix first d) (cs : List Char) :
    ∃ c text, mark ++ first :: cs = c :: text ∧ isDigit c = true := by
  cases marked with
  | none => exact ⟨first, cs, rfl, (digit_read first d (digit.widen (by decide))).2.2.2 digit.1⟩
  | binary | octal | hexadecimal | zero => exact ⟨_, _, rfl, rfl⟩

end

section
variable {radix : Nat} {first : Char} {d : Nat} {cs : List Char} {ds : List Nat} {more : List Char}
  (digit : DigitOf radix first d) (spelled : Spelled radix cs ds) (blank : ∀ c ∈ more.head?, isBlank c = true)
include digit spelled blank

theorem based_numeral (small : radix ≤ 16) (mark : List Char) (used : Nat) :
    basedNumber radix mark used (first :: cs ++ more) =
      (integerOf radix ((first :: cs).filter (· != '_')) (mark ++ (first :: cs).filter (· != '_')),
        used + (first :: cs).length) := by
  have stops : ∀ c ∈ more.head?, (isDigitOf radix c || decide (c = '_')) = false := fun c front =>
    (blank_ends c (blank c front) radix).2.2
  have unspoilt : more.head?.filter isWordChar = none :=
    Option.filter_eq_none_iff.mpr fun c front =>
      Bool.eq_false_iff.mp (blank_ends c (blank c front) radix).2.1
  have given : (first :: cs).filter (· != '_') ≠ [] := by
    rw [List.filter_cons_of_pos (by simpa using (digit_read first d (digit.widen small)).2.1)]
    exact List.cons_ne_nil _ _
  rw [based_run radix mark used _ more (spelled_inside small (.digit first d cs ds digit spelled)) stops, unspoilt,
    basedOf]
  simp only [List.isEmpty_iff, given, if_false]

theorem numeral_number (mark told : List Char) (marked : Mark mark radix told) :
    number (mark ++ (first :: cs ++ more)) =
      (integerOf radix ((first :: cs).filter (· != '_')) (told ++ (first :: cs).filter (· != '_')),
        mark.length + (first :: cs).length) := by
  by_cases given : mark = []
  · subst given
    cases marked
    have stops : ∀ c ∈ more.head?, isSpaced c = false := fun c front => (blank_ends c (blank c front) 10).1
    rw [List.nil_append, number_run _ more (spelled_spaced (.digit first d cs ds digit spelled)) stops,
      decimal_ends _ _ more blank, List.nil_append, List.length_nil, Nat.zero_add]
  · rw [marked_number marked given, based_numeral digit spelled blank marked.small]

theorem numeral_lexeme (mark told : List Char) (marked : Mark mark radix told) (p : Position) :
    lexemes p 0 (mark ++ (first :: cs ++ more)) =
      ⟨if Nat.ofDigits radix (d :: ds).reverse ≤ 4294967295 then .integer (Nat.ofDigits radix (d :: ds).reverse)
        else .unknown (String.ofList (told ++ (first :: cs).filter (· != '_'))),
        p.line, ⟨p.column, p.column + (mark ++ first :: cs).length⟩⟩ ::
      lexemes ((mark ++ first :: cs).foldl Position.after p) 0 more := by
  have value : positional radix ((first :: cs).filter (· != '_')) = Nat.ofDigits radix (d :: ds).reverse :=
    spelled_positional marked.small (.digit first d cs ds digit spelled)
  have read := numeral_number digit spelled blank mark told marked
  rw [integerOf, value, ← List.length_append, ← List.append_assoc] at read
  rw [← List.append_assoc]
  obtain ⟨c, text, parts, begins⟩ := marked.begins digit cs
  rw [parts, List.cons_append] at read ⊢
  refine lexemes_token p c text more _ _ ?_
  rw [number_piece c _ begins, read, List.length_cons]
  rfl

end

end SoftPlc.Scan
