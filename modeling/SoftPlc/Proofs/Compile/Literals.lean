import SoftPlc.Compile.Program
import SoftPlc.Proofs.Compile.Rounds
import SoftPlc.Proofs.Language.Numerals

set_option autoImplicit false

namespace SoftPlc

open Scan

structure Value.Narrowest (n : Int) (v : Value) : Prop where
  integer : v.dataType.isInteger = true
  same : v.toInt = n
  least : ∀ u : Value, u.dataType.isInteger = true → u.toInt = n → v.dataType.rank ≤ u.dataType.rank

namespace Compile

def Settled (n : Int) (span : Span) (answer : Except Fault Value) : Prop :=
  (∃ v, answer = .ok v ∧ v.Narrowest n) ∨
    answer = .error { kind := .syntaxError, span, message := "INTEGER OUT OF RANGE" } ∧
      ∀ u : Value, u.dataType.isInteger = true → u.toInt ≠ n

theorem narrowest_least (n : Int) (v : Value) (found : narrowest? n = some v) (t : DataType) (held : t.Holds n) :
    v.dataType.rank ≤ t.rank := by
  cases t with
  | bool | real => cases held
  | int =>
    rw [DataType.Holds] at held
    rw [narrowest?, if_pos held] at found
    cases found
    exact Nat.le_refl 1
  | dint =>
    rw [DataType.Holds] at held
    rw [narrowest?] at found
    split at found
    · cases found
      exact Nat.le_succ 1
    · cases found
      exact Nat.le_refl 2
  | dword =>
    have integer := (narrowest_number n v found).2
    cases type : v.dataType with
    | bool | real => rw [type] at integer; cases integer
    | int | dint | dword => decide

theorem narrowest_none (n : Int) (none : narrowest? n = none) (t : DataType) : ¬ t.Holds n := by
  unfold narrowest? at none
  split at none
  · cases none
  · split at none
    · cases none
    · split at none
      · cases none
      · cases t with
        | bool | real => exact id
        | int | dint | dword => assumption

theorem literal_settled (n : Int) (span : Span) : Settled n span (integerLiteral n span) := by
  rw [integerLiteral]
  have held (u : Value) (integer : u.dataType.isInteger = true) (same : u.toInt = n) : u.dataType.Holds n :=
    same ▸ u.holds_to_int integer
  cases found : narrowest? n with
  | some v =>
    obtain ⟨same, integer⟩ := narrowest_number n v found
    exact .inl ⟨v, rfl, integer, same, fun u whole number => narrowest_least n v found _ (held u whole number)⟩
  | none => exact .inr ⟨rfl, fun u whole number => narrowest_none n found _ (held u whole number)⟩

-- What is read for digits has the value that they write, or is no integer; what is compiled for an integer, with a
-- minus or without one, has the value that was read, in the narrowest type, or is refused.
theorem integer_literals_never_wrap (mark told : List Char) (radix : Nat) (marked : Mark mark radix told)
    (first : Char) (d : Nat) (digit : DigitOf radix first d) (cs : List Char) (ds : List Nat)
    (spelled : Spelled radix cs ds) (more : List Char) (blank : ∀ c ∈ more.head?, isBlank c = true) (p : Position) :
    lexemes p 0 (mark ++ (first :: cs ++ more)) =
        ⟨if Nat.ofDigits radix (d :: ds).reverse ≤ 4294967295 then .integer (Nat.ofDigits radix (d :: ds).reverse)
          else .unknown (String.ofList (told ++ (first :: cs).filter (· != '_'))),
          p.line, ⟨p.column, p.column + (mark ++ first :: cs).length⟩⟩ ::
        lexemes ((mark ++ first :: cs).foldl Position.after p) 0 more ∧
      (∀ n span, Settled n span (integerLiteral n span)) ∧
      ∀ k span inner vars,
        constant (.integer span k) = integerLiteral k span ∧
        constant (.negation span (.integer inner k)) = integerLiteral (-k) span ∧
        expression vars (.integer span k) = (integerLiteral k span).map .literal ∧
        expression vars (.negation span (.integer inner k)) = (integerLiteral (-k) span).map .literal := by
  refine ⟨numeral_lexeme digit spelled blank mark told marked p, literal_settled, fun k span inner vars => ?_⟩
  have mapped (answer : Except Fault Value) : (do return Fragment.literal (← answer)) = answer.map .literal := by
    cases answer <;> rfl
  refine ⟨rfl, rfl, ?_, ?_⟩
  · rw [expression, mapped]
  · rw [expression, mapped]

theorem first_number_past_the_range :
    lexemes ⟨1, 0⟩ 0 "4_294_967_296\n".toList = [⟨.unknown "4294967296", 1, ⟨0, 13⟩⟩] ∧
      Settled (-2147483648) ⟨0, 13⟩ (.ok (.dint (-2147483648))) := by
  have spelled : Spelled 10 "_294_967_296".toList [2, 9, 4, 9, 6, 7, 2, 9, 6] := by
    repeat first
      | exact .done
      | apply Spelled.underscore
      | apply Spelled.digit _ _ _ _ (by decide)
  have blank : ∀ c ∈ ['\n'].head?, isBlank c = true := by
    rintro c ⟨⟩
    rfl
  have never := integer_literals_never_wrap [] [] 10 .none '4' 4 (by decide) _ _ spelled ['\n'] blank ⟨1, 0⟩
  exact ⟨never.1, never.2.1 (-2147483648) ⟨0, 13⟩⟩

end Compile

end SoftPlc
