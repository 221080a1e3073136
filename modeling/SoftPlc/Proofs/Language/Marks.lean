import SoftPlc.Proofs.Language.Parts
import SoftPlc.Proofs.Language.Statements

set_option autoImplicit false

namespace SoftPlc

def Lexeme.place (l : Lexeme) : UInt16 × Span := (l.line, l.span)

def Cursor.place (c : Cursor) : UInt16 × Span := (c.line, c.span)

def Expression.spans (e : Expression) : List Span := e.parts.map (·.span)

def Expression.spansOf (es : List Expression) : List Span := (Expression.partsOf es).map (·.span)

namespace Parser

def Passed (c : Cursor) (run : List Lexeme) (place : UInt16 × Span) : Prop :=
  place = c.place ∨ ∃ l ∈ run, l.place = place

-- What a rule comes to on a cursor: something in a relation to the lexemes that it takes, or a fault.
structure Marks {α : Type} (c : Cursor) (rule : Parser α) (marked : List Lexeme → α → Prop) : Prop where
  given : ∀ a c', rule c = .ok (a, c') → ∃ run, c.rest = run ++ c'.rest ∧ Passed c run c'.place ∧ marked run a
  refused : ∀ f, rule c = .error f →
    f.kind = .syntaxError ∧ ∃ place, Passed c c.rest place ∧ f.line = some place.1 ∧ f.span = place.2

section
variable {α β : Type} {c : Cursor} {marked : List Lexeme → α → Prop} {whole : List Lexeme → β → Prop}

theorem marks_pure (a : α) (here : marked [] a) : Marks c (pure a) marked := by
  refine ⟨fun b c' answer => ?_, fun f answer => nomatch answer⟩
  cases answer
  exact ⟨[], rfl, .inl rfl, here⟩

theorem marks_fail (message : String) : Marks c (fail message) marked := by
  refine ⟨fun a c' answer => (nomatch answer), fun f answer => ?_⟩
  cases answer
  exact ⟨rfl, c.place, .inl rfl, rfl, rfl⟩

theorem bind_error (rule : Parser α) (next : α → Parser β) (f : Fault) :
    (rule >>= next) c = .error f ↔ rule c = .error f ∨ ∃ a middle, rule c = .ok (a, middle) ∧ next a middle = .error f := by
  simp only [bind, StateT.bind, Except.bind]
  cases rule c with
  | error g => simp
  | ok both =>
    refine ⟨fun answer => .inr ⟨both.1, both.2, rfl, answer⟩, ?_⟩
    rintro (failed | ⟨_, _, ⟨⟩, answer⟩)
    · cases failed
    · exact answer

theorem passed_later (run later : List Lexeme) (c' : Cursor) (passed : Passed c run c'.place)
    (place : UInt16 × Span) (there : Passed c' later place) : Passed c (run ++ later) place := by
  rcases there with rfl | ⟨l, member, here⟩
  · rcases passed with same | ⟨l, member, here⟩
    · exact .inl same
    · exact .inr ⟨l, List.mem_append_left _ member, here⟩
  · exact .inr ⟨l, List.mem_append_right _ member, here⟩

theorem marks_bind {rule : Parser α} {next : α → Parser β} (first : Marks c rule marked)
    (second : ∀ run a c', c.rest.length = run.length + c'.rest.length → marked run a →
      Marks c' (next a) fun later b => whole (run ++ later) b) : Marks c (rule >>= next) whole := by
  have length (run : List Lexeme) (c' : Cursor) (front : c.rest = run ++ c'.rest) :
      c.rest.length = run.length + c'.rest.length := by
    rw [front, List.length_append]
  refine ⟨fun b c' answer => ?_, fun f answer => ?_⟩
  · obtain ⟨a, middle, taken, behind⟩ := (bind_ok _ _ _ _ _).mp answer
    obtain ⟨run, front, passed, here⟩ := first.given a middle taken
    obtain ⟨later, back, ended, there⟩ := (second run a middle (length run middle front) here).given b c' behind
    exact ⟨run ++ later, by rw [front, back, List.append_assoc], passed_later run later middle passed _ ended, there⟩
  · rcases (bind_error rule next f).mp answer with failed | ⟨a, middle, taken, failed⟩
    · exact first.refused f failed
    · obtain ⟨run, front, passed, here⟩ := first.given a middle taken
      obtain ⟨kind, place, there, line, span⟩ := (second run a middle (length run middle front) here).refused f failed
      refine ⟨kind, place, ?_, line, span⟩
      rw [front]
      exact passed_later run middle.rest middle passed place there

theorem marks_weaken {rule : Parser α} {weaker : List Lexeme → α → Prop} (marks : Marks c rule marked)
    (less : ∀ run a, marked run a → weaker run a) : Marks c rule weaker := by
  refine ⟨fun a c' answer => ?_, marks.refused⟩
  obtain ⟨run, front, passed, here⟩ := marks.given a c' answer
  exact ⟨run, front, passed, less run a here⟩

theorem marks_if {p : Prop} [Decidable p] {yes no : Parser α} (holds : p → Marks c yes marked)
    (fails : ¬ p → Marks c no marked) : Marks c (if p then yes else no) marked := by
  by_cases h : p
  · rw [if_pos h]
    exact holds h
  · rw [if_neg h]
    exact fails h

theorem marks_behind {rule after : Parser β} (l : Lexeme) (rest : List Lexeme) (line : UInt16) (span : Span)
    (goes : rule ⟨l :: rest, line, span⟩ = after ⟨rest, l.line, l.span⟩)
    (behind : Marks ⟨rest, l.line, l.span⟩ after fun later b => whole (l :: later) b) :
    Marks ⟨l :: rest, line, span⟩ rule whole := by
  have passed : Passed ⟨l :: rest, line, span⟩ [l] (Cursor.place ⟨rest, l.line, l.span⟩) :=
    .inr ⟨l, List.mem_singleton_self l, rfl⟩
  refine ⟨fun b c' answer => ?_, fun f answer => ?_⟩
  · obtain ⟨run, front, ended, here⟩ := behind.given b c' (goes ▸ answer)
    exact ⟨l :: run, congrArg (l :: ·) front, passed_later [l] run _ passed _ ended, here⟩
  · obtain ⟨kind, place, there, line, span⟩ := behind.refused f (goes ▸ answer)
    exact ⟨kind, place, passed_later [l] rest _ passed place there, line, span⟩

theorem marks_next {next' : Option Token → Parser β} (none : Marks c (next' none) whole)
    (some : ∀ l rest, c.rest.length = rest.length + 1 →
      Marks ⟨rest, l.line, l.span⟩ (next' (some l.token)) fun later b => whole (l :: later) b) :
    Marks c (next >>= next') whole := by
  obtain ⟨lexemes, line, span⟩ := c
  cases lexemes with
  | nil => exact ⟨none.given, none.refused⟩
  | cons l rest => exact marks_behind l rest line span rfl (some l rest rfl)

theorem marks_peek {next' : Option Token → Parser β} (second : Marks c (next' (c.rest.head?.map (·.token))) whole) :
    Marks c (peek >>= next') whole :=
  ⟨second.given, second.refused⟩

theorem marks_skip {next' : Unit → Parser β} {t : Token} (head : c.rest.head?.map (·.token) = some t)
    (second : ∀ l rest, c.rest.length = rest.length + 1 → l.token = t →
      Marks ⟨rest, l.line, l.span⟩ (next' ()) fun later b => whole (l :: later) b) : Marks c (skip >>= next') whole := by
  obtain ⟨lexemes, line, span⟩ := c
  cases lexemes with
  | nil => cases head
  | cons l rest => exact marks_behind l rest line span rfl (second l rest rfl (Option.some.inj head))

theorem marks_here {next' : UInt16 → Parser β} (second : Marks c (next' c.line) whole) : Marks c (here >>= next') whole :=
  ⟨second.given, second.refused⟩

theorem marks_columns {next' : Span → Parser β} (second : Marks c (next' c.span) whole) :
    Marks c (columns >>= next') whole :=
  ⟨second.given, second.refused⟩

theorem marks_derived {rule : Parser α} {derives : List Token → α → Prop} (marks : Marks c rule marked)
    (takes : Takes rule derives) : Marks c rule fun run a => marked run a ∧ derives (run.map (·.token)) a := by
  refine ⟨fun a c' answer => ?_, marks.refused⟩
  obtain ⟨run, front, passed, here⟩ := marks.given a c' answer
  obtain ⟨w, tokens, derived⟩ := takes c a c' answer
  have same : run.map (·.token) = w := by
    rw [Cursor.tokens, front, List.map_append] at tokens
    exact List.append_cancel_right tokens
  exact ⟨run, front, passed, here, same ▸ derived⟩

end

section
variable (c : Cursor)

theorem marks_accept (t : Token) : Marks c (accept t) fun _ _ => True := by
  refine marks_peek (marks_if (fun present => ?_) fun _ => marks_pure _ trivial)
  exact marks_skip present fun l rest _ _ => marks_pure _ trivial

theorem marks_optional_semicolon : Marks c optionalSemicolon fun _ _ => True :=
  marks_bind (marks_accept c _) fun _ _ _ _ _ => marks_pure _ trivial

theorem marks_expect (t : Token) : Marks c (expect t) fun _ _ => True :=
  marks_next (marks_fail _) fun _ _ _ => marks_if (fun _ => marks_pure _ trivial) fun _ => marks_fail _

end

def Covers (run : List Lexeme) (spans : List Span) : Prop := ∀ span ∈ spans, ∃ l ∈ run, l.span = span

theorem covers_mono (run run' : List Lexeme) (spans : List Span) (covers : Covers run spans) (more : run ⊆ run') :
    Covers run' spans := by
  intro span member
  obtain ⟨l, there, same⟩ := covers span member
  exact ⟨l, more there, same⟩

theorem covers_append (run : List Lexeme) (spans spans' : List Span) :
    Covers run (spans ++ spans') ↔ Covers run spans ∧ Covers run spans' :=
  List.forall_mem_append

theorem covers_cons (run : List Lexeme) (span : Span) (spans : List Span) :
    Covers run (span :: spans) ↔ (∃ l ∈ run, l.span = span) ∧ Covers run spans :=
  List.forall_mem_cons

theorem covers_nil (run : List Lexeme) : Covers run [] := nofun

structure Shows (run : List Lexeme) (e : Expression) : Prop where
  some : 0 < run.length
  spans : Covers run e.spans

theorem shows_binary (u v : List Lexeme) (l : Lexeme) (op : BinaryOp) (left right : Expression) (first : Shows u left)
    (second : Shows v right) : Shows (u ++ l :: v) (.binary l.span op left right) := by
  refine ⟨by simp only [List.length_append, List.length_cons]; omega, ?_⟩
  simp only [Expression.spans, Expression.parts, List.map_cons, List.map_append, covers_cons, covers_append]
  refine ⟨⟨l, by simp, rfl⟩, covers_mono u _ _ first.spans (List.subset_append_left _ _), ?_⟩
  exact covers_mono v _ _ second.spans fun x member => by simp [member]

theorem shows_later (run later : List Lexeme) (e : Expression) (shows_ : Shows run e) : Shows (run ++ later) e :=
  ⟨Nat.lt_of_lt_of_le shows_.some (by simp), covers_mono run _ _ shows_.spans (List.subset_append_left _ _)⟩

theorem shows_behind (l : Lexeme) (run : List Lexeme) (e : Expression) (shows_ : Shows run e) : Shows (l :: run) e :=
  ⟨by simp, covers_mono run _ _ shows_.spans (List.subset_cons_self l run)⟩

mutual
theorem operation_marks (depth strength : Nat) (c : Cursor) (room : 4 * c.rest.length + 3 ≤ depth) :
    Marks c (operation depth strength) Shows := by
  match depth with
  | 0 => omega
  | depth + 1 =>
    rw [operation]
    refine marks_bind (operand_marks depth c (by omega)) fun run left c' length shows_ => ?_
    have some := shows_.some
    exact operations_after_marks depth strength c' left run shows_ (by omega)

theorem operations_after_marks (depth strength : Nat) (c : Cursor) (left : Expression) (before : List Lexeme)
    (shows_ : Shows before left) (room : 4 * c.rest.length + 1 ≤ depth) :
    Marks c (operationsAfter depth strength left) fun run e => Shows (before ++ run) e := by
  match depth with
  | 0 => omega
  | depth + 1 =>
    have stops : Marks c (pure left) fun run e => Shows (before ++ run) e :=
      marks_pure left (by simpa using shows_)
    rw [operationsAfter]
    refine marks_peek ?_
    split
    · rename_i op head
      refine marks_if (fun _ => stops) fun _ => marks_skip head fun l rest length _ => marks_columns ?_
      refine marks_bind (operation_marks depth _ _ (by simp only; omega)) fun run right c' less other => ?_
      have whole := shows_binary before run l op left right shows_ other
      simp only at less
      refine marks_weaken (operations_after_marks depth strength c' _ _ whole (by omega)) fun later e shown => ?_
      simpa using shown
    · exact stops

theorem operand_marks (depth : Nat) (c : Cursor) (room : 4 * c.rest.length + 2 ≤ depth) :
    Marks c (operand depth) Shows := by
  match depth with
  | 0 => omega
  | depth + 1 =>
    have unary (make : Span → Expression → Expression) (spans : ∀ span e, (make span e).spans = span :: e.spans) (t : Token)
        (head : c.rest.head?.map (·.token) = some t) :
        Marks c (do
          skip
          let span ← columns
          let e ← operand depth
          return make span e) Shows := by
      refine marks_skip head fun l rest length _ => marks_columns ?_
      refine marks_bind (operand_marks depth _ (by simp only; omega)) fun run e c' _ shows_ => marks_pure _ ?_
      refine ⟨by simp, ?_⟩
      rw [spans, covers_cons]
      refine ⟨⟨l, by simp, rfl⟩, covers_mono run _ _ shows_.spans fun x member => by simp [member]⟩
    rw [operand]
    refine marks_peek ?_
    split
    · exact unary .negation (fun _ _ => rfl) _ ‹_›
    · exact unary .complement (fun _ _ => rfl) _ ‹_›
    · exact primary_marks depth c (by omega)

theorem primary_marks (depth : Nat) (c : Cursor) (room : 4 * c.rest.length + 1 ≤ depth) :
    Marks c (primary depth) Shows := by
  match depth with
  | 0 => omega
  | depth + 1 =>
    have alone (l : Lexeme) (e : Expression) (spans : e.spans = [l.span]) (run : List Lexeme) : Shows (l :: run) e := by
      refine ⟨by simp, ?_⟩
      rw [spans, covers_cons]
      exact ⟨⟨l, List.mem_cons_self, rfl⟩, covers_nil _⟩
    rw [primary]
    refine marks_next (marks_fail _) fun l rest length => ?_
    split
    · refine marks_bind (operation_marks depth 0 _ (by simp only; omega)) fun run e c' _ shows_ => ?_
      refine marks_bind (marks_expect c' _) fun closing _ _ _ _ => marks_pure e ?_
      simpa using shows_later (l :: run) closing e (shows_behind l run e shows_)
    · rename_i name _
      refine marks_columns (marks_bind (marks_accept _ _) fun opening _ c₁ first _ => marks_if (fun _ => ?_) fun _ => ?_)
      · refine marks_bind (marks_accept c₁ _) fun closing _ c₂ second _ => marks_if (fun _ => ?_) fun _ => ?_
        · exact marks_pure _ (alone l _ rfl _)
        · simp only at first
          refine marks_bind (arguments_marks depth c₂ (by omega)) fun run args _ _ covers => marks_pure _ ?_
          refine ⟨by simp, (covers_cons _ _ _).mpr ⟨⟨l, by simp, rfl⟩, ?_⟩⟩
          exact covers_mono run _ _ covers fun x member => by simp [member]
      · exact marks_pure _ (alone l _ rfl _)
    · exact marks_columns (marks_pure _ (alone l _ rfl _))
    · exact marks_columns (marks_pure _ (alone l _ rfl _))
    · exact marks_columns (marks_pure _ (alone l _ rfl _))
    · exact marks_fail _

theorem arguments_marks (depth : Nat) (c : Cursor) (room : 4 * c.rest.length + 4 ≤ depth) :
    Marks c (arguments depth) fun run args => Covers run (Expression.spansOf args) := by
  match depth with
  | 0 => omega
  | depth + 1 =>
    rw [arguments]
    refine marks_bind (operation_marks depth 0 c (by omega)) fun run e c' length shows_ => ?_
    have some := shows_.some
    refine marks_next (marks_fail _) fun l rest less => ?_
    split
    · refine marks_pure _ ?_
      simpa [Expression.spansOf, Expression.partsOf, Expression.spans] using (shows_later run [l] e shows_).spans
    · refine marks_bind (arguments_marks depth _ (by simp only; omega)) fun later args _ _ covers => marks_pure _ ?_
      rw [Expression.spansOf, Expression.partsOf, List.map_append, covers_append]
      exact ⟨covers_mono run _ _ shows_.spans (List.subset_append_left _ _),
        covers_mono later _ _ covers fun x member => by simp [member]⟩
    · exact marks_fail _
end

theorem expression_marks (c : Cursor) : Marks c expression Shows := by
  have whole := operation_marks (roomFor c) 0 c (by rw [roomFor]; omega)
  exact ⟨whole.given, whole.refused⟩

end Parser

end SoftPlc
