import SoftPlc.Language.Scan

set_option autoImplicit false

namespace SoftPlc.Scan

def Plain (c : Char) : Prop := c ≠ '\n' ∧ c ≠ '/' ∧ c ≠ '('

instance (c : Char) : Decidable (Plain c) := inferInstanceAs (Decidable (_ ∧ _ ∧ _))

structure Takes (f : List Char → Read) (used : Nat) (text more : List Char) : Prop where
  length : (f (text ++ more)).2 = used + text.length
  alone : f text = f (text ++ more)
  plain : ∀ c ∈ text, Plain c

theorem run_split (p : Char → Bool) (cs : List Char) : ∃ run rest, cs = run ++ rest ∧
    (∀ c ∈ run, p c = true) ∧ ∀ c ∈ rest.head?, p c = false := by
  refine ⟨cs.takeWhile p, cs.dropWhile p, (List.takeWhile_append_dropWhile).symm, ?_, ?_⟩
  · exact List.all_eq_true.mp List.all_takeWhile
  · intro c front
    have stopped := List.head?_dropWhile_not p cs
    rw [Option.mem_def.mp front] at stopped
    exact (Bool.not_eq_true _).mp (by simpa using stopped)

theorem take_run (p : Char → Bool) (run rest : List Char) (inside : ∀ c ∈ run, p c = true)
    (stops : ∀ c ∈ rest.head?, p c = false) : (run ++ rest).takeWhile p = run := by
  rw [List.takeWhile_append_of_pos inside]
  cases rest with
  | nil => rw [List.takeWhile_nil, List.append_nil]
  | cons c rest => rw [List.takeWhile_cons_of_neg (Bool.eq_false_iff.mp (stops c rfl)), List.append_nil]

theorem digit_plain (c : Char) (digit : isDigit c = true) : Plain c := by
  refine ⟨?_, ?_, ?_⟩ <;> rintro rfl <;> exact absurd digit (by decide)

theorem word_char_plain (c : Char) (inside : isWordChar c = true) : Plain c := by
  refine ⟨?_, ?_, ?_⟩ <;> rintro rfl <;> exact absurd inside (by decide)

def isSpaced (c : Char) : Bool := isDigit c || c = '_'

theorem spaced_plain (c : Char) (inside : isSpaced c = true) : Plain c := by
  refine ⟨?_, ?_, ?_⟩ <;> rintro rfl <;> exact absurd inside (by decide)

theorem radix_digit_plain (radix : Nat) (c : Char) (inside : (isDigitOf radix c || decide (c = '_')) = true) :
    Plain c := by
  have either : ((isLetter c && c != '_' || isDigit c) || decide (c = '_')) = true := by
    rw [isDigitOf] at inside
    revert inside
    cases isLetter c && c != '_' || isDigit c <;> simp
  refine ⟨?_, ?_, ?_⟩ <;> rintro rfl <;> exact absurd either (by decide)

section
variable (radix : Nat) (mark : List Char) (used : Nat)

def basedOf (run : List Char) : Option Char → Read
  | some c => (.unknown (String.ofList (mark ++ run.filter (· != '_') ++ [c])), used + run.length + 1)
  | none =>
    let digits := run.filter (· != '_')
    if digits.isEmpty then (.unknown (String.ofList mark), used + run.length)
    else (integerOf radix digits (mark ++ digits), used + run.length)

theorem based_run (run rest : List Char) (inside : ∀ c ∈ run, (isDigitOf radix c || decide (c = '_')) = true)
    (stops : ∀ c ∈ rest.head?, (isDigitOf radix c || decide (c = '_')) = false) :
    basedNumber radix mark used (run ++ rest) = basedOf radix mark used run (rest.head?.filter isWordChar) := by
  rw [basedNumber, take_run _ run rest inside stops, List.drop_left]
  cases rest with
  | nil => rfl
  | cons c rest =>
    rw [List.head?_cons, Option.filter_some]
    cases spoils : isWordChar c with
    | true =>
      simp only [spoils, if_true]
      rfl
    | false =>
      simp only [spoils, Bool.false_eq_true, if_false]
      rfl

theorem based_takes (cs : List Char) :
    ∃ text more, cs = text ++ more ∧ Takes (basedNumber radix mark used) used text more := by
  obtain ⟨run, rest, rfl, inside, stops⟩ := run_split (fun c => isDigitOf radix c || decide (c = '_')) cs
  have plain : ∀ c ∈ run, Plain c := fun c member => radix_digit_plain radix c (inside c member)
  have whole := based_run radix mark used run rest inside stops
  cases spoils : rest.head?.filter isWordChar with
  | none =>
    rw [spoils] at whole
    have alone := based_run radix mark used run [] inside (fun _ none => nomatch none)
    rw [List.append_nil] at alone
    refine ⟨run, rest, rfl, ?_, alone.trans whole.symm, plain⟩
    rw [whole, basedOf]
    split <;> rfl
  | some c =>
    rw [spoils] at whole
    obtain ⟨front, letter⟩ := Option.filter_eq_some_iff.mp spoils
    obtain ⟨more, rfl⟩ := List.head?_eq_some_iff.mp front
    have alone := based_run radix mark used run [c] inside stops
    rw [List.head?_cons, Option.filter_some, if_pos letter] at alone
    have same : (run ++ [c]) ++ more = run ++ c :: more := by simp
    refine ⟨run ++ [c], more, same.symm, ?_, ?_, ?_⟩
    · rw [same, whole, List.length_append]
      rfl
    · rw [same, alone, whole]
    · intro d member
      rcases List.mem_append.mp member with old | new
      · exact plain d old
      · rw [List.mem_singleton.mp new]
        exact word_char_plain c letter

end

theorem digits_run (p : Char → Bool) (d : Char) (run rest : List Char) (inside : ∀ c ∈ d :: run, p c = true)
    (stops : ∀ c ∈ rest.head?, p c = false) : (d :: (run ++ rest)).takeWhile p = d :: run := by
  rw [← List.cons_append]
  exact take_run p (d :: run) rest inside stops

theorem stops_in_front {front cs : List Char} (shorter : front <+: cs) (p : Char → Bool)
    (stops : ∀ c ∈ cs.head?, p c = false) : ∀ c ∈ front.head?, p c = false := by
  obtain ⟨others, rfl⟩ := shorter
  cases front with
  | nil => exact fun _ none => nomatch none
  | cons c front => exact stops

theorem fraction_takes (cs : List Char) : ∃ text more, cs = text ++ more ∧ (fractionPart cs).2 = text.length ∧
    (∀ c ∈ text, Plain c) ∧ ∀ shorter, shorter <+: more → fractionPart (text ++ shorter) = fractionPart cs := by
  by_cases point : ∃ d rest, cs = '.' :: d :: rest ∧ isDigit d = true
  · obtain ⟨d, rest, rfl, digit⟩ := point
    obtain ⟨run, more, rfl, inside, stops⟩ := run_split isSpaced rest
    have all : ∀ c ∈ d :: run, isSpaced c = true :=
      List.forall_mem_cons.mpr ⟨by rw [isSpaced, digit, Bool.true_or], inside⟩
    have read (rest : List Char) (stops : ∀ c ∈ rest.head?, isSpaced c = false) :
        fractionPart ('.' :: d :: (run ++ rest)) = ((d :: run).filter (· != '_'), (d :: run).length + 1) := by
      rw [fractionPart, if_pos digit]
      simp only [show (d :: (run ++ rest)).takeWhile (fun c => isDigit c || decide (c = '_')) = d :: run from
        digits_run isSpaced d run rest all stops]
    refine ⟨'.' :: d :: run, more, rfl, by rw [read more stops]; rfl, ?_, fun shorter front => ?_⟩
    · exact List.forall_mem_cons.mpr ⟨by decide, fun c member => spaced_plain c (all c member)⟩
    · rw [read more stops]
      exact read shorter (stops_in_front front isSpaced stops)
  · have nothing (cs : List Char) (point : ¬ ∃ d rest, cs = '.' :: d :: rest ∧ isDigit d = true) :
        fractionPart cs = ([], 0) := by
      unfold fractionPart
      split
      · rename_i d rest
        exact if_neg fun digit => point ⟨d, rest, rfl, digit⟩
      · rfl
    refine ⟨[], cs, rfl, by rw [nothing cs point]; rfl, (fun _ none => nomatch none), fun shorter front => ?_⟩
    rw [nothing cs point]
    apply nothing
    rintro ⟨d, rest, rfl, digit⟩
    obtain ⟨others, rfl⟩ := front
    exact point ⟨d, rest ++ others, rfl, digit⟩

theorem exponent_takes (cs sign digits : List Char) (n : Nat) (read : exponentPart cs = some (sign, digits, n)) :
    ∃ text more, cs = text ++ more ∧ n = text.length ∧ (∀ c ∈ text, Plain c) ∧
      exponentPart text = some (sign, digits, n) := by
  unfold exponentPart at read
  split at read
  next e d rest =>
    split at read
    next mark =>
      have first : Plain e := by rcases mark with rfl | rfl <;> decide
      split at read
      next signed =>
        obtain ⟨run, more, rfl, inside, stops⟩ := run_split isDigit rest
        rw [take_run isDigit run more inside stops] at read
        obtain ⟨rfl, rfl, rfl⟩ : [d] = sign ∧ run = digits ∧ run.length + 2 = n := by simpa using read
        refine ⟨e :: d :: run, more, rfl, rfl, ?_, ?_⟩
        · have second : Plain d := by rcases signed with rfl | rfl <;> decide
          exact List.forall_mem_cons.mpr ⟨first, List.forall_mem_cons.mpr ⟨second, fun c member =>
            digit_plain c (inside c member)⟩⟩
        · have alone := take_run isDigit run [] inside (fun _ none => nomatch none)
          rw [List.append_nil] at alone
          simp only [exponentPart, mark, signed, if_true, alone]
      next unsigned =>
        split at read
        next digit =>
          obtain ⟨run, more, rfl, inside, stops⟩ := run_split isDigit rest
          have all : ∀ c ∈ d :: run, isDigit c = true := List.forall_mem_cons.mpr ⟨digit, inside⟩
          rw [digits_run isDigit d run more all stops] at read
          cases read
          refine ⟨e :: d :: run, more, rfl, rfl, ?_, ?_⟩
          · exact List.forall_mem_cons.mpr ⟨first, fun c member => digit_plain c (all c member)⟩
          · have alone := digits_run isDigit d run [] all (fun _ none => nomatch none)
            rw [List.append_nil] at alone
            simp only [exponentPart, mark, unsigned, digit, if_true, if_false, alone]
        next => cases read
    next => cases read
  next => cases read

section
variable (digits : List Char) (used : Nat)

def decimalOf (fraction : List Char × Nat) : Option (List Char × List Char × Nat) → Read
  | some (sign, exponent, exponentLength) =>
    let length := used + fraction.2 + exponentLength
    if exponent.isEmpty then
      let point := if fraction.2 = 0 then [] else '.' :: fraction.1
      (.unknown (String.ofList (digits ++ point ++ 'E' :: sign)), length)
    else (.real (realOf digits fraction.1 sign exponent), length)
  | none =>
    if fraction.2 = 0 then (integerOf 10 digits digits, used)
    else (.real (realOf digits fraction.1 [] []), used + fraction.2)

theorem decimal_parts (cs : List Char) : decimalNumber digits used cs =
    decimalOf digits used (fractionPart cs) (exponentPart (cs.drop (fractionPart cs).2)) := rfl

theorem decimal_takes (cs : List Char) :
    ∃ text more, cs = text ++ more ∧ Takes (decimalNumber digits used) used text more := by
  obtain ⟨fraction, behind, rfl, length, plain, read⟩ := fraction_takes cs
  have whole := decimal_parts digits used (fraction ++ behind)
  rw [length, List.drop_left] at whole
  cases told : exponentPart behind with
  | none =>
    rw [told] at whole
    have alone := decimal_parts digits used fraction
    have same := read [] List.nil_prefix
    rw [List.append_nil] at same
    rw [same, length, List.drop_length] at alone
    refine ⟨fraction, behind, rfl, ?_, alone.trans whole.symm, plain⟩
    rw [whole, decimalOf, length]
    split
    next nothing => rw [nothing]; rfl
    next => rfl
  | some exponent =>
    obtain ⟨sign, exponent, n⟩ := exponent
    obtain ⟨text, more, rfl, rfl, others, again⟩ := exponent_takes behind sign exponent n told
    rw [told] at whole
    have alone := decimal_parts digits used (fraction ++ text)
    rw [read text (List.prefix_append _ _), length, List.drop_left, again] at alone
    refine ⟨fraction ++ text, more, (List.append_assoc _ _ _).symm, ?_, ?_, ?_⟩
    · rw [List.append_assoc, whole, decimalOf, length, List.length_append, ← Nat.add_assoc]
      split <;> rfl
    · rw [List.append_assoc]
      exact alone.trans whole.symm
    · intro c member
      exact (List.mem_append.mp member).elim (plain c) (others c)

def radixOf (c : Char) : Option (Nat × List Char) :=
  if c = 'x' ∨ c = 'X' then
    if digits = ['0'] then some (16, ['0', 'X']) else none
  else if c = '#' then
    if digits = ['2'] then some (2, ['2', '#'])
    else if digits = ['8'] then some (8, ['8', '#'])
    else if digits = ['1', '6'] then some (16, ['1', '6', '#'])
    else none
  else none

def numberOf : List Char → Read
  | [] => decimalNumber digits used []
  | c :: after =>
    match radixOf digits c with
    | some (radix, mark) => basedNumber radix mark (used + 1) after
    | none =>
      if c = '#' then (.unknown (String.ofList (digits ++ ['#'])), used + 1)
      else decimalNumber digits used (c :: after)

theorem number_of_takes (cs : List Char) :
    ∃ text more, cs = text ++ more ∧ Takes (numberOf digits used) used text more := by
  have decimal (cs : List Char) (same : ∀ text more, cs = text ++ more →
      numberOf digits used text = decimalNumber digits used text) :
      ∃ text more, cs = text ++ more ∧ Takes (numberOf digits used) used text more := by
    obtain ⟨text, more, rfl, takes⟩ := decimal_takes digits used cs
    have whole := same (text ++ more) [] (List.append_nil _).symm
    have alone := same text more rfl
    exact ⟨text, more, rfl, by rw [whole, takes.length], by rw [whole, alone, takes.alone], takes.plain⟩
  cases cs with
  | nil =>
    refine decimal [] fun text more parts => ?_
    rw [(List.append_eq_nil_iff.mp parts.symm).1]
    rfl
  | cons c after =>
    cases marked : radixOf digits c with
    | some radix =>
      obtain ⟨radix, mark⟩ := radix
      obtain ⟨text, more, rfl, takes⟩ := based_takes radix mark (used + 1) after
      have same (after : List Char) : numberOf digits used (c :: after) = basedNumber radix mark (used + 1) after := by
        rw [numberOf, marked]
      have plain : Plain c := by
        by_cases other : c = 'x' ∨ c = 'X' ∨ c = '#'
        · rcases other with rfl | rfl | rfl <;> decide
        · rw [radixOf, if_neg (fun x => other (x.elim .inl fun x => .inr (.inl x))),
            if_neg (fun x => other (.inr (.inr x)))] at marked
          cases marked
      refine ⟨c :: text, more, rfl, ?_, ?_, List.forall_mem_cons.mpr ⟨plain, takes.plain⟩⟩
      · rw [List.cons_append, same, takes.length, List.length_cons]
        omega
      · rw [List.cons_append, same, same, takes.alone]
    | none =>
      by_cases hash : c = '#'
      · have same (after : List Char) :
            numberOf digits used (c :: after) = (.unknown (String.ofList (digits ++ ['#'])), used + 1) := by
          rw [numberOf, marked]
          exact if_pos hash
        refine ⟨[c], after, rfl, ?_, ?_, ?_⟩
        · rw [List.cons_append, same]
          rfl
        · rw [List.cons_append, same, same]
        · exact List.forall_mem_singleton.mpr (by rw [hash]; decide)
      · refine decimal (c :: after) fun text more parts => ?_
        cases text with
        | nil => rfl
        | cons d text =>
          cases parts
          rw [numberOf, marked]
          exact if_neg hash

theorem number_run (run rest : List Char) (inside : ∀ c ∈ run, isSpaced c = true)
    (stops : ∀ c ∈ rest.head?, isSpaced c = false) :
    number (run ++ rest) = numberOf (run.filter (· != '_')) run.length rest := by
  have taken : (run ++ rest).takeWhile (fun c => isDigit c || decide (c = '_')) = run :=
    take_run isSpaced run rest inside stops
  simp only [number, taken, List.drop_left]
  generalize run.filter (· != '_') = digits
  split
  next after =>
    by_cases zero : digits = ['0'] <;> simp [numberOf, radixOf, zero]
  next after =>
    by_cases zero : digits = ['0'] <;> simp [numberOf, radixOf, zero]
  next after =>
    by_cases two : digits = ['2']
    · simp [numberOf, radixOf, two]
    · by_cases eight : digits = ['8']
      · simp [numberOf, radixOf, eight]
      · by_cases sixteen : digits = ['1', '6'] <;> simp [numberOf, radixOf, two, eight, sixteen]
  next small large hash =>
    cases rest with
    | nil => rfl
    | cons c after =>
      have marks : (c ≠ 'x' ∧ c ≠ 'X') ∧ c ≠ '#' :=
        ⟨⟨fun x => small after (by rw [x]), fun x => large after (by rw [x])⟩, fun x => hash after (by rw [x])⟩
      simp [numberOf, radixOf, marks]

end

theorem number_takes (c : Char) (cs : List Char) (digit : isDigit c = true) :
    ∃ text more, cs = text ++ more ∧ Takes number 0 (c :: text) more := by
  obtain ⟨run, rest, rfl, inside, stops⟩ := run_split isSpaced cs
  have all : ∀ d ∈ c :: run, isSpaced d = true :=
    List.forall_mem_cons.mpr ⟨by rw [isSpaced, digit, Bool.true_or], inside⟩
  obtain ⟨text, more, rfl, takes⟩ := number_of_takes ((c :: run).filter (· != '_')) (c :: run).length rest
  have whole := number_run (c :: run) (text ++ more) all stops
  have alone := number_run (c :: run) text all (stops_in_front (List.prefix_append text more) isSpaced stops)
  have parts : c :: (run ++ text) ++ more = c :: run ++ (text ++ more) := by simp
  refine ⟨run ++ text, more, (List.append_assoc _ _ _).symm, ?_, ?_, ?_⟩
  · rw [parts, whole, takes.length]
    simp only [List.length_cons, List.length_append]
    omega
  · rw [parts, whole, ← takes.alone]
    exact alone
  · intro d member
    rw [← List.cons_append] at member
    exact (List.mem_append.mp member).elim (fun old => spaced_plain d (all d old)) (takes.plain d)

theorem word_run (run rest : List Char) (inside : ∀ c ∈ run, isWordChar c = true)
    (stops : ∀ c ∈ rest.head?, isWordChar c = false) :
    word (run ++ rest) = ((Token.reserved? (String.ofList (run.map Char.toUpper))).getD
      (.ident (String.ofList (run.map Char.toUpper))), run.length) := by
  rw [word, take_run isWordChar run rest inside stops]

theorem word_takes (c : Char) (cs : List Char) (letter : isLetter c = true) :
    ∃ text more, cs = text ++ more ∧ Takes word 0 (c :: text) more := by
  obtain ⟨run, rest, rfl, inside, stops⟩ := run_split isWordChar cs
  have all : ∀ d ∈ c :: run, isWordChar d = true :=
    List.forall_mem_cons.mpr ⟨by rw [isWordChar, letter, Bool.true_or], inside⟩
  have whole := word_run (c :: run) rest all stops
  have alone := word_run (c :: run) [] all (fun _ none => nomatch none)
  rw [List.append_nil] at alone
  refine ⟨run, rest, rfl, ?_, alone.trans whole.symm, fun d member => word_char_plain d (all d member)⟩
  rw [whole, Nat.zero_add]

theorem plain_two (c d : Char) (first : Plain c) (second : Plain d) : ∀ e ∈ [c, d], Plain e :=
  List.forall_mem_cons.mpr ⟨first, List.forall_mem_singleton.mpr second⟩

theorem sign_takes (cs : List Char) (given : cs ≠ []) : ∃ text more, cs = text ++ more ∧
    (sign cs).2 = text.length ∧ sign text = sign cs ∧ (text.length = 1 ∨ text.length = 2 ∧ ∀ c ∈ text, Plain c) := by
  fun_cases sign cs
  case case1 more | case2 more | case3 more | case4 more | case5 more =>
    exact ⟨[_, _], more, rfl, rfl, rfl, .inr ⟨rfl, plain_two _ _ (by decide) (by decide)⟩⟩
  case case19 c more _ _ _ _ _ _ _ _ _ _ _ _ _ _ _ _ _ _ =>
    refine ⟨[c], more, rfl, rfl, ?_, .inl rfl⟩
    rw [sign.eq_19] <;> simp_all
  case case20 => exact absurd rfl given
  all_goals exact ⟨[_], _, rfl, rfl, rfl, .inl rfl⟩

end SoftPlc.Scan
