import SoftPlc.Proofs.Language.Readers

set_option autoImplicit false

namespace SoftPlc.Scan

def Opens (cs : List Char) : Prop := ['/', '/'] <+: cs ∨ ['(', '*'] <+: cs

inductive Within where
  | code
  | line
  | block
deriving DecidableEq, Repr

-- Of each character of a text, whether it belongs to a comment.
def comments : Within → List Char → List Bool
  | _, [] => []
  | .code, '/' :: '/' :: rest => true :: true :: comments .line rest
  | .code, '(' :: '*' :: rest => true :: true :: comments .block rest
  | .code, _ :: rest => false :: comments .code rest
  | .line, '\n' :: rest => false :: comments .code rest
  | .line, _ :: rest => true :: comments .line rest
  | .block, '*' :: ')' :: rest => true :: true :: comments .code rest
  | .block, _ :: rest => true :: comments .block rest

-- These equations are made once here. The proofs below would otherwise wait for them together.
attribute [local simp] comments

-- A stretch that is passed over, with what stands behind it. A line comment goes to the end of its line, and a
-- block comment to the first mark that closes it.
inductive Gap : List Char → List Char → Prop
  | blank (c : Char) (more : List Char) (blank : isBlank c = true) : Gap [c] more
  | line (body more : List Char) (inside : '\n' ∉ body) (ends : ∀ c ∈ more.head?, c = '\n') :
    Gap ('/' :: '/' :: body) more
  | block (body more : List Char) (first : ¬ ['*', ')'] <:+: body ++ ['*']) :
    Gap ('(' :: '*' :: (body ++ ['*', ')'])) more

-- The text of a token, with what stands behind it. Read alone, it is the token and nothing else.
structure TokenText (t : Token) (text more : List Char) : Prop where
  given : text ≠ []
  unbroken : '\n' ∉ text
  unopened : ∀ a b, text = a ++ b → b ≠ [] → ¬ Opens (b ++ more)
  alone : scan (String.ofList text) = [⟨t, 1, ⟨0, text.length⟩⟩]

theorem opens_iff (c : Char) (rest : List Char) :
    Opens (c :: rest) ↔ c = '/' ∧ rest.head? = some '/' ∨ c = '(' ∧ rest.head? = some '*' := by
  cases rest with
  | nil => simp [Opens]
  | cons d rest => simp [Opens, List.cons_prefix_cons, eq_comm]

theorem opens_front (front cs : List Char) (shorter : front <+: cs) (opens : Opens front) : Opens cs :=
  opens.imp (·.trans shorter) (·.trans shorter)

theorem other_unopened (c : Char) (rest : List Char) (slash : c ≠ '/') (paren : c ≠ '(') : ¬ Opens (c :: rest) := by
  rw [opens_iff]
  rintro (⟨same, _⟩ | ⟨same, _⟩)
  · exact slash same
  · exact paren same

theorem comments_code (c : Char) (rest : List Char) (unopened : ¬ Opens (c :: rest)) :
    comments .code (c :: rest) = false :: comments .code rest := by
  rw [opens_iff] at unopened
  rw [comments.eq_4]
  · rintro tail rfl rfl
    exact unopened (.inl ⟨rfl, rfl⟩)
  · rintro tail rfl rfl
    exact unopened (.inr ⟨rfl, rfl⟩)

theorem comments_unopened (text more : List Char) (unopened : ∀ a b, text = a ++ b → b ≠ [] → ¬ Opens (b ++ more)) :
    comments .code (text ++ more) = List.replicate text.length false ++ comments .code more := by
  induction text with
  | nil => rfl
  | cons c text ih =>
    rw [List.cons_append, comments_code c (text ++ more) (unopened [] (c :: text) rfl (List.cons_ne_nil _ _)),
      ih fun a b parts => unopened (c :: a) b (by rw [parts, List.cons_append])]
    rfl

theorem comments_line (body more : List Char) (inside : '\n' ∉ body) (ends : ∀ c ∈ more.head?, c = '\n') :
    comments .line (body ++ more) = List.replicate body.length true ++ comments .code more := by
  induction body with
  | nil =>
    cases more with
    | nil => rfl
    | cons c more =>
      cases ends c rfl
      exact (comments_code '\n' more (other_unopened _ _ (by decide) (by decide))).symm ▸ rfl
  | cons c body ih =>
    have different : c ≠ '\n' := fun same => inside (same ▸ List.mem_cons_self)
    rw [List.cons_append, comments.eq_6 _ _ different, ih (fun member => inside (List.mem_cons_of_mem c member))]
    rfl

theorem closing_later (c : Char) (body : List Char) (first : ¬ ['*', ')'] <:+: c :: body) :
    ¬ ['*', ')'] <:+: body ∧ ∀ tail, c = '*' → body = ')' :: tail → False := by
  rw [List.infix_cons_iff, not_or] at first
  refine ⟨first.2, ?_⟩
  rintro tail rfl rfl
  exact first.1 ⟨tail, rfl⟩

theorem comments_block (body more : List Char) (first : ¬ ['*', ')'] <:+: body ++ ['*']) :
    comments .block (body ++ '*' :: ')' :: more) = List.replicate (body.length + 2) true ++ comments .code more := by
  induction body with
  | nil => rfl
  | cons c body ih =>
    obtain ⟨later, apart⟩ := closing_later c (body ++ ['*']) first
    rw [List.cons_append, comments.eq_8, ih later]
    · rfl
    · intro tail star paren
      cases body with
      | nil => cases paren
      | cons d body =>
        cases paren
        exact apart (body ++ ['*']) star rfl

theorem comments_unended (body : List Char) (unended : ¬ ['*', ')'] <:+: body) :
    comments .block body = List.replicate body.length true := by
  induction body with
  | nil => rfl
  | cons c body ih =>
    obtain ⟨later, apart⟩ := closing_later c body unended
    rw [comments.eq_8 _ _ apart, ih later]
    rfl

theorem comments_gap (text more : List Char) (gap : Gap text more) :
    ∃ within, comments .code (text ++ more) = List.replicate text.length within ++ comments .code more ∧
      (within = true ∨ ∀ c ∈ text, isBlank c = true) := by
  cases gap with
  | blank c _ blank =>
    have unopened : ¬ Opens (c :: more) := by
      apply other_unopened <;> rintro rfl <;> exact absurd blank (by decide)
    exact ⟨false, comments_code c more unopened, .inr (List.forall_mem_singleton.mpr blank)⟩
  | line body _ inside ends =>
    refine ⟨true, ?_, .inl rfl⟩
    rw [List.cons_append, List.cons_append, comments.eq_2, comments_line body more inside ends]
    rfl
  | block body _ first =>
    refine ⟨true, ?_, .inl rfl⟩
    have parts : body ++ ['*', ')'] ++ more = body ++ '*' :: ')' :: more := by simp
    rw [List.cons_append, List.cons_append, parts, comments.eq_3, comments_block body more first]
    simp [List.replicate_succ]

theorem comment_end_some (cs : List Char) (n : Nat) (found : commentEnd cs = some n) :
    ∃ body more, cs = body ++ '*' :: ')' :: more ∧ n = body.length + 2 ∧ ¬ ['*', ')'] <:+: body ++ ['*'] := by
  fun_induction commentEnd cs generalizing n with
  | case1 more =>
    cases found
    exact ⟨[], more, rfl, rfl, by decide⟩
  | case2 c rest apart ih =>
    obtain ⟨m, behind, rfl⟩ := Option.map_eq_some_iff.mp found
    obtain ⟨body, more, rfl, rfl, first⟩ := ih m behind
    refine ⟨c :: body, more, rfl, by rw [List.length_cons], ?_⟩
    rw [List.cons_append, List.infix_cons_iff, not_or]
    refine ⟨?_, first⟩
    rintro ⟨tail, same⟩
    cases body with
    | nil => cases same
    | cons d body =>
      cases same
      exact apart _ rfl rfl
  | case3 => cases found

theorem comment_end_none (cs : List Char) (missing : commentEnd cs = none) : ¬ ['*', ')'] <:+: cs := by
  fun_induction commentEnd cs with
  | case1 => cases missing
  | case2 c rest apart ih =>
    rw [List.infix_cons_iff, not_or]
    refine ⟨?_, ih (Option.map_eq_none_iff.mp missing)⟩
    rintro ⟨tail, same⟩
    cases same
    exact apart _ rfl rfl
  | case3 => decide

def reader (c : Char) : List Char → Read :=
  if isDigit c then number else if isLetter c then word else sign

theorem piece_read (c : Char) (rest : List Char) (visible : isBlank c = false) (unopened : ¬ Opens (c :: rest)) :
    piece c rest = .token (reader c (c :: rest)).1 (reader c (c :: rest)).2 (reader c (c :: rest)).2 := by
  rw [opens_iff, not_or] at unopened
  have read : (if isDigit c then number (c :: rest) else if isLetter c then word (c :: rest) else sign (c :: rest)) =
      reader c (c :: rest) := by
    rw [reader]
    split
    · rfl
    · split <;> rfl
  rw [piece, if_neg (Bool.eq_false_iff.mp visible), if_neg unopened.1, if_neg unopened.2, read]

theorem reader_takes (c : Char) (rest : List Char) : ∃ text more, rest = text ++ more ∧
    (reader c (c :: rest)).2 = text.length + 1 ∧ reader c (c :: text) = reader c (c :: rest) ∧
    (text = [] ∨ ∀ d ∈ c :: text, Plain d) := by
  by_cases digit : isDigit c = true
  · obtain ⟨text, more, rfl, takes⟩ := number_takes c rest digit
    have same : reader c = number := if_pos digit
    rw [same]
    exact ⟨text, more, rfl, by rw [← List.cons_append, takes.length, Nat.zero_add, List.length_cons], takes.alone,
      .inr takes.plain⟩
  · by_cases letter : isLetter c = true
    · obtain ⟨text, more, rfl, takes⟩ := word_takes c rest letter
      have same : reader c = word := (if_neg digit).trans (if_pos letter)
      rw [same]
      exact ⟨text, more, rfl, by rw [← List.cons_append, takes.length, Nat.zero_add, List.length_cons], takes.alone,
        .inr takes.plain⟩
    · have same : reader c = sign := (if_neg digit).trans (if_neg letter)
      rw [same]
      obtain ⟨text, more, parts, length, alone, size⟩ := sign_takes (c :: rest) (List.cons_ne_nil _ _)
      cases text with
      | nil => exact absurd size (by decide)
      | cons d text =>
        cases parts
        refine ⟨text, more, rfl, length, alone, size.imp (fun one => ?_) And.right⟩
        exact List.eq_nil_of_length_eq_zero (Nat.succ.inj one)

theorem lexemes_behind (p : Position) (text more : List Char) :
    lexemes p text.length (text ++ more) = lexemes (text.foldl Position.after p) 0 more := by
  induction text generalizing p with
  | nil => rfl
  | cons c text ih => exact ih (p.after c)

theorem lexemes_gap (p : Position) (c : Char) (text more : List Char)
    (read : piece c (text ++ more) = .gap (text.length + 1)) :
    lexemes p 0 (c :: (text ++ more)) = lexemes ((c :: text).foldl Position.after p) 0 more := by
  rw [lexemes, read]
  exact lexemes_behind (p.after c) text more

theorem lexemes_token (p : Position) (c : Char) (text more : List Char) (t : Token) (width : Nat)
    (read : piece c (text ++ more) = .token t width (text.length + 1)) :
    lexemes p 0 (c :: (text ++ more)) =
      ⟨t, p.line, ⟨p.column, p.column + width⟩⟩ :: lexemes ((c :: text).foldl Position.after p) 0 more := by
  rw [lexemes, read]
  exact congrArg _ (lexemes_behind (p.after c) text more)

theorem token_text (c : Char) (rest : List Char) (visible : isBlank c = false) (unopened : ¬ Opens (c :: rest)) :
    ∃ t text more, rest = text ++ more ∧ TokenText t (c :: text) more ∧
      piece c rest = .token t (text.length + 1) (text.length + 1) := by
  obtain ⟨text, more, rfl, length, alone, size⟩ := reader_takes c rest
  have whole := piece_read c (text ++ more) visible unopened
  have shorter : ¬ Opens (c :: text) := fun opens =>
    unopened (opens_front _ _ (List.prefix_append (c :: text) more) opens)
  have single := piece_read c text visible shorter
  rw [alone] at single
  rw [length] at whole single
  refine ⟨_, text, more, rfl, ⟨List.cons_ne_nil _ _, ?_, ?_, ?_⟩, whole⟩
  · rcases size with rfl | plain
    · rintro member
      rw [← List.mem_singleton.mp member] at visible
      exact absurd visible (by decide)
    · exact fun member => (plain '\n' member).1 rfl
  · intro a b parts given
    cases b with
    | nil => exact absurd rfl given
    | cons d b =>
      rcases size with rfl | plain
      · cases a with
        | nil =>
          cases parts
          exact unopened
        | cons e a =>
          have short := congrArg List.length parts
          simp at short
      · have inside := plain d (parts ▸ List.mem_append_right a List.mem_cons_self)
        exact other_unopened d _ inside.2.1 inside.2.2
  · have read := lexemes_token ⟨1, 0⟩ c text [] _ _ (by rw [List.append_nil]; exact single)
    rw [List.append_nil] at read
    rw [scan, String.toList_ofList, read, List.length_cons, Nat.zero_add]
    rfl

theorem opened_line (rest : List Char) : ∃ body more, rest = body ++ more ∧ Gap ('/' :: '/' :: body) more ∧
    piece '/' ('/' :: rest) = .gap (body.length + 2) := by
  obtain ⟨body, more, rfl, inside, stops⟩ := run_split (· != '\n') rest
  have unbroken : '\n' ∉ body := fun member => absurd (inside '\n' member) (by decide)
  have ends : ∀ c ∈ more.head?, c = '\n' := fun c front => by simpa using stops c front
  refine ⟨body, more, rfl, .line body more unbroken ends, ?_⟩
  have run := take_run (· != '\n') ('/' :: body) more (List.forall_mem_cons.mpr ⟨by decide, inside⟩) stops
  rw [List.cons_append] at run
  rw [piece, if_neg (by decide), if_pos ⟨rfl, rfl⟩, run]
  rfl

theorem opened_block (rest : List Char) :
    (∃ body more, rest = body ++ more ∧ Gap ('(' :: '*' :: body) more ∧
      piece '(' ('*' :: rest) = .gap (body.length + 2)) ∨
    ¬ ['*', ')'] <:+: rest ∧ piece '(' ('*' :: rest) = .token (.unknown "(*") 2 (rest.length + 2) := by
  have visible : ¬ isBlank '(' = true := by decide
  have slashless : ¬ ('(' = '/' ∧ ('*' :: rest).head? = some '/') := fun slash => absurd slash.1 (by decide)
  have opening : '(' = '(' ∧ ('*' :: rest).head? = some '*' := ⟨rfl, rfl⟩
  cases ended : commentEnd rest with
  | none =>
    refine .inr ⟨comment_end_none rest ended, ?_⟩
    rw [piece, if_neg visible, if_neg slashless, if_pos opening]
    simp only [List.drop_succ_cons, List.drop_zero, ended, List.length_cons]
  | some n =>
    obtain ⟨body, more, rfl, rfl, first⟩ := comment_end_some rest n ended
    have length : (body ++ ['*', ')']).length = body.length + 2 := List.length_append
    refine .inl ⟨body ++ ['*', ')'], more, by simp, .block body more first, ?_⟩
    rw [piece, if_neg visible, if_neg slashless, if_pos opening]
    simp only [List.drop_succ_cons, List.drop_zero, ended, length]

inductive Begins (c : Char) (rest : List Char) : Prop
  | gap (text more : List Char) (parts : rest = text ++ more) (gap : Gap (c :: text) more)
    (read : piece c rest = .gap (text.length + 1))
  | token (t : Token) (text more : List Char) (parts : rest = text ++ more) (told : TokenText t (c :: text) more)
    (read : piece c rest = .token t (text.length + 1) (text.length + 1))
  | unended (body : List Char) (opens : c = '(' ∧ rest = '*' :: body) (unended : ¬ ['*', ')'] <:+: body)
    (read : piece c rest = .token (.unknown "(*") 2 (rest.length + 1))

theorem begins (c : Char) (rest : List Char) : Begins c rest := by
  by_cases blank : isBlank c = true
  · exact .gap [] rest rfl (.blank c rest blank) (if_pos blank)
  · by_cases opens : Opens (c :: rest)
    · rcases (opens_iff c rest).mp opens with ⟨rfl, next⟩ | ⟨rfl, next⟩
      · obtain ⟨rest, rfl⟩ := List.head?_eq_some_iff.mp next
        obtain ⟨body, more, rfl, gap, read⟩ := opened_line rest
        exact .gap ('/' :: body) more rfl gap read
      · obtain ⟨rest, rfl⟩ := List.head?_eq_some_iff.mp next
        rcases opened_block rest with ⟨body, more, rfl, gap, read⟩ | ⟨unended, read⟩
        · exact .gap ('*' :: body) more rfl gap read
        · exact .unended rest ⟨rfl, rfl⟩ unended read
    · obtain ⟨t, text, more, rfl, told, read⟩ := token_text c rest ((Bool.not_eq_true _).mp blank) opens
      exact .token t text more rfl told read

end SoftPlc.Scan
