import SoftPlc.Proofs.Compile.Blames
import SoftPlc.Proofs.Compile.Layout

set_option autoImplicit false

namespace SoftPlc.Compile

open SoftPlc.Parser

-- The lexemes `part` are told about with the line of `run`: a lexeme that the parser stops at, the word or an
-- expression of a statement, and the name or the initial value in a declaration.
inductive Owns : List Lexeme → List Lexeme → Prop where
  | lexeme (l : Lexeme) : Owns [l] [l]
  | word {run : List Lexeme} {s : Statement} {l : Lexeme} (headed : Headed run s) (own : l.span ∈ s.own) : Owns run [l]
  | operand {run part : List Lexeme} {s : Statement} {e : Expression} (headed : Headed run s) (operand : e ∈ s.operands)
      (spelled : Spelled part e) : Owns run part
  | name {run : List Lexeme} {d : Declaration} {l : Lexeme} (introduced : Introduced run d) (first : run.head? = some l) :
      Owns run [l]
  | initializer {run part : List Lexeme} {d : Declaration} {e : Expression} (introduced : Introduced run d)
      (initial : d.initializer = some e) (spelled : Spelled part e) : Owns run part

-- The line is that of the first lexeme of a run, and the columns are those of a lexeme that the run owns.
def Points (ls : List Lexeme) (line : UInt16) (span : Span) : Prop :=
  ∃ run part, run <:+: ls ∧ part <:+: run ∧ Owns run part ∧ run.head?.map (·.line) = some line ∧ ∃ l ∈ part, l.span = span

theorem covers_operands (run : List Lexeme) (es : List Expression) (holds : Holds run es) (span : Span)
    (member : span ∈ Expression.spansOf es) :
    ∃ e ∈ es, ∃ part, part <:+: run ∧ Spelled part e ∧ ∃ l ∈ part, l.span = span := by
  induction es with
  | nil => cases member
  | cons e rest ih =>
    obtain ⟨⟨part, inside, spelled⟩, others⟩ := List.forall_mem_cons.mp holds
    rw [Expression.spans_of_cons] at member
    rcases List.mem_append.mp member with here | later
    · exact ⟨e, List.mem_cons_self, part, inside, spelled, spelled.spans span here⟩
    · obtain ⟨e', among, found⟩ := ih others later
      exact ⟨e', List.mem_cons_of_mem e among, found⟩

theorem singleton_inside (run : List Lexeme) (l : Lexeme) (member : l ∈ run) : [l] <:+: run := by
  obtain ⟨front, back, rfl⟩ := List.append_of_mem member
  exact ⟨front, back, by simp⟩

theorem statement_points (ls run : List Lexeme) (s : Statement) (inside : run <:+: ls) (headed : Headed run s)
    (span : Span) (member : span ∈ s.spans) : Points ls s.line span := by
  rcases List.mem_append.mp member with own | operand
  · obtain ⟨l, there, rfl⟩ := headed.own span own
    exact ⟨run, [l], inside, singleton_inside run l there, .word headed own, headed.line, l, List.mem_singleton_self l, rfl⟩
  · obtain ⟨e, among, part, within, spelled, place⟩ := covers_operands run s.operands headed.operands span operand
    exact ⟨run, part, inside, within, .operand headed among spelled, headed.line, place⟩

theorem declaration_points (ls run : List Lexeme) (d : Declaration) (inside : run <:+: ls) (introduced : Introduced run d)
    (span : Span) (member : span ∈ d.spans) : Points ls d.line span := by
  obtain ⟨l, first, place⟩ := Option.map_eq_some_iff.mp introduced.place
  obtain ⟨line, columns⟩ := Prod.mk.inj place
  have head : run.head?.map (·.line) = some d.line := by rw [first, ← line]; rfl
  rcases List.mem_cons.mp member with rfl | initial
  · have there : l ∈ run := List.mem_of_mem_head? first
    exact ⟨run, [l], inside, singleton_inside run l there, .name introduced first, head, l, List.mem_singleton_self l, columns⟩
  · obtain ⟨e, among, part, within, spelled, found⟩ := covers_operands run _ introduced.initializer span initial
    exact ⟨run, part, inside, within, .initializer introduced (Option.mem_toList.mp among) spelled, head, found⟩

theorem compile_blames (source : String) :
    Blames (Placed fun line span => span = .unknown ∨ Points (scan source) line span) (compile source) := by
  refine blames_bind (fun f refused => ?_) fun p parsed => ?_
  · obtain ⟨kind, ⟨l, member, line, span⟩ | ⟨line, span⟩⟩ := parse_refused _ f refused
    · rw [kind]
      refine ⟨nofun, l.line, line, .inr ⟨[l], [l], singleton_inside _ l member, List.infix_rfl, .lexeme l, rfl, l, ?_⟩⟩
      exact ⟨List.mem_singleton_self l, span.symm⟩
    · rw [kind]
      exact ⟨nofun, 1, line, .inl span⟩
  · obtain ⟨introduce, stand⟩ := parse_origins _ p parsed
    refine program_blames _ p (fun d member span place => .inr ?_) fun s member => ⟨.inl rfl, fun span place => .inr ?_⟩
    · obtain ⟨run, inside, introduced⟩ := introduce d member
      exact declaration_points _ run d inside introduced span place
    · obtain ⟨run, inside, headed⟩ := stand s member
      exact statement_points _ run s inside headed span place

-- A refusal has a line, and its columns are those of a lexeme in the statement or the declaration that starts
-- on this line; so they are found on it wherever what is told about is not broken off it.
theorem refusal_points_into_text (source : String) (f : Fault) (refused : compile source = .error f) :
    ∃ line, f.line = some line ∧ (f.span ≠ .unknown → ∃ run part, run <:+: scan source ∧ part <:+: run ∧ Owns run part ∧
      run.head?.map (·.line) = some line ∧ (∃ l ∈ part, l.span = f.span) ∧
      ((∀ l ∈ part, l.line = line) → ∃ l ∈ scan source, l.line = line ∧ l.span = f.span)) := by
  obtain ⟨-, line, known, place⟩ := compile_blames source f refused
  refine ⟨line, known, fun shown => ?_⟩
  obtain ⟨run, part, inside, within, owns, first, l, member, span⟩ := place.resolve_left shown
  refine ⟨run, part, inside, within, owns, first, ⟨l, member, span⟩, fun together => ?_⟩
  exact ⟨l, (within.trans inside).subset member, together l member, span⟩

theorem condition_is_pointed_at : ∃ f, compile "VAR x:INT;END_VAR\nWHILE x > y DO END_WHILE" = .error f ∧
    f.line = some 2 ∧ f.span = ⟨10, 11⟩ ∧ ∃ run part, Owns run part ∧ run.head?.map (·.line) = some 2 ∧
      ∃ l ∈ part, l.span = f.span := by
  obtain ⟨f, refused, second, columns⟩ : ∃ f, compile "VAR x:INT;END_VAR\nWHILE x > y DO END_WHILE" = .error f ∧
      f.line = some 2 ∧ f.span = ⟨10, 11⟩ := refused_with _ _ (by decide +kernel)
  obtain ⟨line, known, pointed⟩ := refusal_points_into_text _ f refused
  obtain rfl : line = 2 := Option.some.inj (known.symm.trans second)
  obtain ⟨run, part, -, -, owns, first, place, -⟩ := pointed (by rw [columns]; decide)
  exact ⟨f, refused, second, columns, run, part, owns, first, place⟩

def lateCondition : String :=
  "VAR x : INT; END_VAR\nIF x > 0 THEN\n  x := 1;\nELSIF y > 0 THEN\n  x := 2;\nEND_IF;"

-- Its second condition is on the fourth line and is told with the second one, where nothing is at its columns.
theorem second_condition_is_told_with_first_line :
    ∃ f, compile lateCondition = .error f ∧ f.line = some 2 ∧ f.span = ⟨6, 7⟩ ∧
      (⟨.ident "Y", 4, ⟨6, 7⟩⟩ : Lexeme) ∈ scan lateCondition ∧
      ∀ l ∈ scan lateCondition, l.line = 2 → l.span ≠ ⟨6, 7⟩ :=
  refused_with _ _ (by decide +kernel)

end SoftPlc.Compile
