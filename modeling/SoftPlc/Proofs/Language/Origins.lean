import SoftPlc.Proofs.Language.Acceptance
import SoftPlc.Proofs.Language.Marks

set_option autoImplicit false

namespace SoftPlc

def Statement.own : Statement → List Span
  | .assign _ span _ _ | .count _ span _ _ _ _ _ | .exit _ span => [span]
  | _ => []

theorem Expression.span_mem (e : Expression) : e.span ∈ e.spans := List.mem_map_of_mem (parts_self e)

@[simp]
theorem Expression.spans_of_nil : spansOf [] = [] := rfl

@[simp]
theorem Expression.spans_of_cons (e : Expression) (rest : List Expression) : spansOf (e :: rest) = e.spans ++ spansOf rest :=
  List.map_append

def Statement.spans (s : Statement) : List Span := s.own ++ Expression.spansOf s.operands

def Declaration.spans (d : Declaration) : List Span := d.span :: Expression.spansOf d.initializer.toList

theorem Statement.nested_tail (s : Statement) : s.nested = s :: s.nested.tail := by
  cases s <;> rfl

namespace Parser

open Grammar

structure Spelled (run : List Lexeme) (e : Expression) : Prop where
  derived : Expr (run.map (·.token)) e.bare
  spans : Covers run e.spans

def Holds (run : List Lexeme) (es : List Expression) : Prop := ∀ e ∈ es, ∃ part, part <:+: run ∧ Spelled part e

theorem holds_mono (run run' : List Lexeme) (es : List Expression) (holds : Holds run es) (inside : run <:+: run') :
    Holds run' es := by
  intro e member
  obtain ⟨part, within, spelled⟩ := holds e member
  exact ⟨part, within.trans inside, spelled⟩

theorem holds_nil (run : List Lexeme) : Holds run [] := nofun

theorem holds_cons (run part : List Lexeme) (e : Expression) (es : List Expression) (spelled : Spelled part e)
    (inside : part <:+: run) (others : Holds run es) : Holds run (e :: es) :=
  List.forall_mem_cons.mpr ⟨⟨part, inside, spelled⟩, others⟩

theorem expression_spelled (c : Cursor) : Marks c expression Spelled :=
  marks_weaken (marks_derived (expression_marks c) expression_takes) fun _ _ both => ⟨both.2, both.1.spans⟩

structure Headed (run : List Lexeme) (s : Statement) : Prop where
  derived : Stmt (run.map (·.token)) s.bare
  line : run.head?.map (·.line) = some s.line
  own : Covers run s.own
  operands : Holds run s.operands

def Stand (run : List Lexeme) (body : List Statement) : Prop := ∀ s ∈ body, ∃ part, part <:+: run ∧ Headed part s

theorem stand_mono (run run' : List Lexeme) (body : List Statement) (stand : Stand run body) (inside : run <:+: run') :
    Stand run' body := by
  intro s member
  obtain ⟨part, within, headed⟩ := stand s member
  exact ⟨part, within.trans inside, headed⟩

theorem stand_append (run : List Lexeme) (body body' : List Statement) :
    Stand run (body ++ body') ↔ Stand run body ∧ Stand run body' :=
  List.forall_mem_append

theorem headed_length (run : List Lexeme) (s : Statement) (headed : Headed run s) : 0 < run.length := by
  cases run with
  | nil => cases headed.line
  | cons l rest => exact Nat.succ_pos _

theorem stand_nil (run : List Lexeme) : Stand run [] := nofun

theorem covers_own (l : Lexeme) (later : List Lexeme) : Covers (l :: later) [l.span] :=
  (covers_cons _ _ _).mpr ⟨⟨l, List.mem_cons_self, rfl⟩, covers_nil _⟩

section
variable {α β : Type} {c : Cursor} {whole : List Lexeme → β → Prop}

theorem marks_same {rule rule' : Parser β} (same : rule c = rule' c) (marks : Marks c rule' whole) :
    Marks c rule whole :=
  ⟨fun b c' answer => marks.given b c' (same ▸ answer), fun f answer => marks.refused f (same ▸ answer)⟩

theorem marks_identifier {next' : String → Parser β}
    (second : ∀ l rest name, c.rest.length = rest.length + 1 →
      Marks ⟨rest, l.line, l.span⟩ (next' name) fun later b => whole (l :: later) b) :
    Marks c (identifier >>= next') whole := by
  obtain ⟨lexemes, line, span⟩ := c
  cases lexemes with
  | nil =>
    have failed : Marks ⟨[], line, span⟩ (fail "EXPECTED IDENTIFIER" : Parser β) whole := marks_fail _
    have same : (identifier >>= next') ⟨[], line, span⟩ = (fail "EXPECTED IDENTIFIER" : Parser β) ⟨[], line, span⟩ := rfl
    exact marks_same same failed
  | cons l rest =>
    obtain ⟨token, at_, columns⟩ := l
    have failed (t : Token) : Marks ⟨rest, at_, columns⟩ (fail "EXPECTED IDENTIFIER" : Parser β) fun later b =>
        whole (⟨t, at_, columns⟩ :: later) b := marks_fail _
    cases token with
    | ident name => exact marks_behind ⟨.ident name, at_, columns⟩ rest line span rfl (second ⟨_, at_, columns⟩ rest name rfl)
    | _ => exact marks_behind ⟨_, at_, columns⟩ rest line span rfl (failed _)

theorem marks_then_expect {t : Token} {rule : Parser α} {next' : α → Parser β} {marked : List Lexeme → α → Prop}
    (first : Marks c rule marked)
    (second : ∀ run closing a c', c.rest.length = run.length + closing.length + c'.rest.length → marked run a →
      Marks c' (next' a) fun later b => whole (run ++ (closing ++ later)) b) :
    Marks c (rule >>= fun a => expect t >>= fun _ => next' a) whole := by
  refine marks_bind first fun run a c₁ length here => marks_bind (marks_expect c₁ t) fun closing _ c₂ less _ => ?_
  exact second run closing a c₂ (by omega) here

theorem marks_led (t : Token) {next' : Option Expression → Parser β}
    (second : ∀ run value c', c.rest.length = run.length + c'.rest.length →
      Holds run value.toList → Led t (run.map (·.token)) (value.map Expression.bare) →
      Marks c' (next' value) fun later b => whole (run ++ later) b) :
    Marks c (accept t >>= fun given =>
      if given then (expression >>= fun e => pure (some e)) >>= next' else pure none >>= next') whole := by
  refine marks_bind (marks_derived (marks_accept c t) (takes_accept t)) fun run given c₁ length taken => ?_
  obtain ⟨_, lead⟩ := taken
  generalize tokens : run.map (·.token) = w at lead
  cases lead with
  | absent =>
    have none := second run none c₁ length (holds_nil _) (tokens ▸ .none)
    exact marks_same rfl none
  | present =>
    have read : Marks c₁ (expression >>= fun e => pure (some e)) fun later value =>
        Holds later value.toList ∧ Led t (t :: later.map (·.token)) (value.map Expression.bare) := by
      refine marks_bind (expression_spelled c₁) fun later e _ _ spelled => marks_pure _ ?_
      exact ⟨holds_cons _ later e [] spelled ⟨[], [], by simp⟩ (holds_nil _), by simpa using Led.some spelled.derived⟩
    refine marks_bind read fun later value c₂ less both => ?_
    obtain ⟨holds, led⟩ := both
    refine marks_weaken (second (run ++ later) value c₂ (by simp; omega)
      (holds_mono later _ _ holds ⟨run, [], by simp⟩) (by rw [List.map_append, tokens]; exact led)) ?_
    intro behind b here
    simpa using here

end

theorem signed_integer_marks (c : Cursor) : Marks c signedInteger fun _ _ => True := by
  refine marks_bind (marks_accept c _) fun _ negative c' _ _ => marks_next (marks_fail _) fun l rest _ => ?_
  split
  · exact marks_pure _ trivial
  · exact marks_fail _

theorem case_label_marks (c : Cursor) : Marks c caseLabel fun _ _ => True := by
  refine marks_bind (signed_integer_marks c) fun _ low c₁ _ _ => marks_bind (marks_accept c₁ _) fun _ _ c₂ _ _ => ?_
  refine marks_if (fun _ => marks_bind (signed_integer_marks c₂) fun _ high c₃ _ _ => ?_) fun _ => marks_pure _ trivial
  exact marks_if (fun _ => marks_fail _) fun _ => marks_pure _ trivial

theorem case_labels_marks (depth : Nat) (c : Cursor) (room : c.rest.length + 1 ≤ depth) :
    Marks c (caseLabels depth) fun run _ => 0 < run.length := by
  induction depth generalizing c with
  | zero => omega
  | succ depth ih =>
    rw [caseLabels]
    refine marks_bind (case_label_marks c) fun run label c' length _ => marks_next (marks_fail _) fun l rest less => ?_
    split
    · refine marks_bind (ih _ (by simp only; omega)) fun later _ _ _ _ => marks_pure _ ?_
      simp only [List.length_append, List.length_cons]
      omega
    · exact marks_pure _ (by simp)
    · exact marks_fail _

open Statement

mutual
theorem block_marks (depth : Nat) (c : Cursor) (room : 4 * c.rest.length + 4 ≤ depth) :
    Marks c (block depth) fun run body => Stand run (nestedOf body) := by
  match depth with
  | 0 => omega
  | depth + 1 =>
    rw [block]
    refine marks_peek ?_
    split
    · refine marks_skip ‹_› fun l rest length _ => ?_
      refine marks_weaken (block_marks depth _ (by simp only; omega)) fun run body stand => ?_
      exact stand_mono run _ _ stand ⟨[l], [], by simp⟩
    · refine marks_if (fun _ => ?_) fun _ => marks_pure _ (stand_nil _)
      refine marks_bind (statement_marks depth c (by omega)) fun run s c' length both => ?_
      obtain ⟨headed, stand⟩ := both
      have some := headed_length run s headed
      refine marks_bind (block_marks depth c' (by omega)) fun later body _ _ others => marks_pure _ ?_
      rw [nestedOf, stand_append]
      exact ⟨stand_mono run _ _ stand ⟨[], later ++ [], by simp⟩, stand_mono later _ _ others ⟨run, [], by simp⟩⟩
    · exact marks_pure _ (stand_nil _)

theorem statement_marks (depth : Nat) (c : Cursor) (room : 4 * c.rest.length + 3 ≤ depth) :
    Marks c (statement depth) fun run s => Headed run s ∧ Stand run s.nested := by
  match depth with
  | 0 => omega
  | depth + 1 =>
    have raw : Marks c (statement (depth + 1)) fun run s =>
        run.head?.map (·.line) = some s.line ∧ Covers run s.own ∧ Holds run s.operands ∧ Stand run s.nested.tail := by
      rw [statement]
      refine marks_next (marks_here (marks_columns (marks_fail _))) fun l rest length => marks_here (marks_columns ?_)
      split
      · refine marks_bind (marks_expect _ _) fun u _ c₁ _ _ => marks_then_expect (expression_spelled c₁) ?_
        intro v w e c₂ _ value
        refine marks_pure _ ⟨rfl, covers_own l _, ?_, stand_nil _⟩
        exact holds_cons _ v e [] value ⟨l :: u, w ++ [], by simp⟩ (holds_nil _)
      · refine marks_then_expect (expression_spelled _) fun u closing e c₁ at₁ condition => ?_
        simp only at at₁
        refine marks_bind (block_marks depth c₁ (by omega)) fun v body c₂ at₂ inner => ?_
        refine marks_bind (branches_marks depth c₂ (by omega)) fun w both c₃ _ others => ?_
        refine marks_bind (marks_optional_semicolon c₃) fun last _ _ _ _ => marks_pure _ ⟨rfl, covers_nil _, ?_, ?_⟩
        · exact holds_cons _ u e _ condition ⟨[l], closing ++ (v ++ (w ++ (last ++ []))), by simp⟩
            (holds_mono w _ _ others.1 ⟨l :: (u ++ (closing ++ v)), last ++ [], by simp⟩)
        · simp only [nested, List.tail_cons, nestedOfBranches, List.append_assoc _ _ (nestedOf both.2)]
          exact (stand_append _ _ _).mpr ⟨stand_mono v _ _ inner ⟨l :: (u ++ closing), w ++ (last ++ []), by simp⟩,
            stand_mono w _ _ others.2 ⟨l :: (u ++ (closing ++ v)), last ++ [], by simp⟩⟩
      · refine marks_then_expect (expression_spelled _) fun u closing e c₁ at₁ selector => ?_
        simp only at at₁
        refine marks_bind (arms_marks depth c₁ (by omega)) fun v both c₂ _ others => ?_
        refine marks_bind (marks_optional_semicolon c₂) fun last _ _ _ _ => marks_pure _ ⟨rfl, covers_nil _, ?_, ?_⟩
        · exact holds_cons _ u e [] selector ⟨[l], closing ++ (v ++ (last ++ [])), by simp⟩ (holds_nil _)
        · exact stand_mono v _ _ others ⟨l :: (u ++ closing), last ++ [], by simp⟩
      · refine marks_identifier fun named rest' name less => marks_columns ?_
        refine marks_bind (marks_expect _ _) fun u _ c₁ at₁ _ => marks_then_expect (expression_spelled c₁) ?_
        intro v until_ low c₂ at₂ start
        refine marks_bind (expression_spelled c₂) fun w high c₃ at₃ stop => marks_led _ fun x step c₄ at₄ steps _ => ?_
        refine marks_bind (marks_expect c₄ _) fun do_ _ c₅ at₅ _ => ?_
        simp only at less at₁
        refine marks_then_expect (block_marks depth c₅ (by omega)) fun y closing body c₆ _ inner => ?_
        refine marks_bind (marks_optional_semicolon c₆) fun last _ _ _ _ => marks_pure _ ⟨rfl, ?_, ?_, ?_⟩
        · exact covers_mono _ _ _ (covers_own named []) fun x member => by simp [List.mem_singleton.mp member]
        · refine holds_cons _ v low _ start
            ⟨l :: named :: u, until_ ++ (w ++ (x ++ (do_ ++ (y ++ (closing ++ (last ++ [])))))), by simp⟩ ?_
          refine holds_cons _ w high _ stop
            ⟨l :: named :: (u ++ (v ++ until_)), x ++ (do_ ++ (y ++ (closing ++ (last ++ [])))), by simp⟩ ?_
          exact holds_mono x _ _ steps
            ⟨l :: named :: (u ++ (v ++ (until_ ++ w))), do_ ++ (y ++ (closing ++ (last ++ []))), by simp⟩
        · exact stand_mono y _ _ inner
            ⟨l :: named :: (u ++ (v ++ (until_ ++ (w ++ (x ++ do_))))), closing ++ (last ++ []), by simp⟩
      · refine marks_then_expect (expression_spelled _) fun u closing e c₁ at₁ condition => ?_
        simp only at at₁
        refine marks_then_expect (block_marks depth c₁ (by omega)) fun v closing' body c₂ _ inner => ?_
        refine marks_bind (marks_optional_semicolon c₂) fun last _ _ _ _ => marks_pure _ ⟨rfl, covers_nil _, ?_, ?_⟩
        · exact holds_cons _ u e [] condition ⟨[l], closing ++ (v ++ (closing' ++ (last ++ []))), by simp⟩ (holds_nil _)
        · exact stand_mono v _ _ inner ⟨l :: (u ++ closing), closing' ++ (last ++ []), by simp⟩
      · refine marks_then_expect (block_marks depth _ (by simp only; omega)) fun u closing body c₁ at₁ inner => ?_
        refine marks_then_expect (expression_spelled c₁) fun v closing' e c₂ _ condition => ?_
        refine marks_bind (marks_optional_semicolon c₂) fun last _ _ _ _ => marks_pure _ ⟨rfl, covers_nil _, ?_, ?_⟩
        · exact holds_cons _ v e [] condition ⟨l :: (u ++ closing), closing' ++ (last ++ []), by simp⟩ (holds_nil _)
        · exact stand_mono u _ _ inner ⟨[l], closing ++ (v ++ (closing' ++ (last ++ []))), by simp⟩
      · refine marks_bind (marks_expect _ _) fun u _ _ _ _ => marks_pure _ ⟨rfl, covers_own l _, holds_nil _, stand_nil _⟩
      · refine marks_bind (marks_expect _ _) fun u _ _ _ _ => marks_pure _ ⟨rfl, covers_nil _, holds_nil _, stand_nil _⟩
      · exact marks_fail _
      · exact marks_fail _
    refine marks_weaken (marks_derived raw (statement_takes (depth + 1))) fun run s both => ?_
    obtain ⟨⟨line, own, operands, below⟩, derived⟩ := both
    have headed : Headed run s := ⟨derived, line, own, operands⟩
    refine ⟨headed, ?_⟩
    rw [nested_tail]
    intro inner member
    rcases List.mem_cons.mp member with rfl | deeper
    · exact ⟨run, List.infix_rfl, headed⟩
    · exact below inner deeper

theorem branches_marks (depth : Nat) (c : Cursor) (room : 4 * c.rest.length + 4 ≤ depth) :
    Marks c (branchesAfter depth) fun run both => Holds run (both.1.map (·.1)) ∧
      Stand run (nestedOfBranches both.1 ++ nestedOf both.2) := by
  match depth with
  | 0 => omega
  | depth + 1 =>
    rw [branchesAfter]
    refine marks_next (marks_fail _) fun l rest length => ?_
    split
    · refine marks_then_expect (expression_spelled _) fun u closing e c₁ at₁ condition => ?_
      simp only at at₁
      refine marks_bind (block_marks depth c₁ (by omega)) fun v body c₂ at₂ inner => ?_
      refine marks_bind (branches_marks depth c₂ (by omega)) fun w both c₃ _ others => marks_pure _ ⟨?_, ?_⟩
      · exact holds_cons _ u e _ condition ⟨[l], closing ++ (v ++ (w ++ [])), by simp⟩
          (holds_mono w _ _ others.1 ⟨l :: (u ++ (closing ++ v)), [], by simp⟩)
      · simp only [nestedOfBranches, List.append_assoc _ _ (nestedOf both.2)]
        exact (stand_append _ _ _).mpr ⟨stand_mono v _ _ inner ⟨l :: (u ++ closing), w ++ [], by simp⟩,
          stand_mono w _ _ others.2 ⟨l :: (u ++ (closing ++ v)), [], by simp⟩⟩
    · refine marks_then_expect (block_marks depth _ (by simp only; omega)) fun u closing body c₁ _ inner => marks_pure _ ?_
      exact ⟨holds_nil _, stand_mono u _ _ inner ⟨[l], closing ++ [], by simp⟩⟩
    · exact marks_pure _ ⟨holds_nil _, stand_nil _⟩
    · exact marks_fail _

theorem arms_marks (depth : Nat) (c : Cursor) (room : 4 * c.rest.length + 4 ≤ depth) :
    Marks c (caseArms depth) fun run both => Stand run (nestedOfArms both.1 ++ nestedOf both.2) := by
  match depth with
  | 0 => omega
  | depth + 1 =>
    rw [caseArms]
    refine marks_peek ?_
    split
    · refine marks_skip ‹_› fun l rest length _ => ?_
      refine marks_then_expect (block_marks depth _ (by simp only; omega)) fun u closing body c₁ _ inner => marks_pure _ ?_
      exact stand_mono u _ _ inner ⟨[l], closing ++ [], by simp⟩
    · exact marks_skip ‹_› fun l rest length _ => marks_pure _ (stand_nil _)
    · refine marks_bind (case_labels_marks depth c (by omega)) fun u labels c₁ at₁ some => ?_
      refine marks_bind (block_marks depth c₁ (by omega)) fun v body c₂ at₂ inner => ?_
      refine marks_bind (arms_marks depth c₂ (by omega)) fun w both c₃ _ others => marks_pure _ ?_
      simp only [nestedOfArms, List.append_assoc _ _ (nestedOf both.2)]
      exact (stand_append _ _ _).mpr ⟨stand_mono v _ _ inner ⟨u, w ++ [], by simp⟩,
        stand_mono w _ _ others ⟨u ++ v, [], by simp⟩⟩
end

structure Listed (run : List Lexeme) (place : UInt16 × Span × String) : Prop where
  derived : ∃ v names, run.map (·.token) = v ++ [.colon] ∧ Names v (place.2.2 :: names)
  place : run.head?.map Lexeme.place = some (place.1, place.2.1)

theorem names_marks (depth : Nat) (c : Cursor) (room : c.rest.length + 1 ≤ depth) :
    Marks c (declaredNames depth) fun run places => ∀ place ∈ places, ∃ part, part <:+ run ∧ Listed part place := by
  induction depth generalizing c with
  | zero => omega
  | succ depth ih =>
    have raw : Marks c (declaredNames (depth + 1)) fun run places => ∃ first later, places = first :: later ∧
        run.head?.map Lexeme.place = some (first.1, first.2.1) ∧
          ∀ place ∈ later, ∃ part, part <:+ run ∧ Listed part place := by
      rw [declaredNames]
      refine marks_identifier fun l rest name length => marks_here (marks_columns ?_)
      refine marks_next (marks_fail _) fun l' rest' less => ?_
      simp only at less
      split
      · refine marks_bind (ih _ (by simp only; omega)) fun run others c' _ listed => marks_pure _ ?_
        refine ⟨_, others, rfl, rfl, fun place member => ?_⟩
        obtain ⟨part, behind, here⟩ := listed place member
        exact ⟨part, behind.trans ⟨[l, l'], by simp⟩, here⟩
      · exact marks_pure _ ⟨_, [], rfl, rfl, List.forall_mem_nil _⟩
      · exact marks_fail _
    refine marks_weaken (marks_derived raw (names_take (depth + 1))) fun run places both place member => ?_
    obtain ⟨⟨first, later, rfl, head, others⟩, v, tokens, listed⟩ := both
    rcases List.mem_cons.mp member with rfl | behind
    · exact ⟨run, List.suffix_rfl, ⟨v, _, tokens, listed⟩, head⟩
    · exact others place behind

structure Introduced (run : List Lexeme) (d : Declaration) : Prop where
  derived : ∃ ds, Line d.variableClass (run.map (·.token)) (d.bare :: ds)
  place : run.head?.map Lexeme.place = some (d.line, d.span)
  initializer : Holds run d.initializer.toList

def Introduce (run : List Lexeme) (ds : List Declaration) : Prop := ∀ d ∈ ds, ∃ part, part <:+: run ∧ Introduced part d

theorem introduce_mono (run run' : List Lexeme) (ds : List Declaration) (introduce : Introduce run ds)
    (inside : run <:+: run') : Introduce run' ds := by
  intro d member
  obtain ⟨part, within, introduced⟩ := introduce d member
  exact ⟨part, within.trans inside, introduced⟩

section
variable {α : Type} {c : Cursor} {marked : List Lexeme → α → Prop}

theorem marks_with_room {rule : Nat → Parser α}
    (marks : ∀ depth, 4 * c.rest.length + 8 ≤ depth → Marks c (rule depth) marked) :
    Marks c (fun c => rule (roomFor c) c) marked :=
  have here := marks (roomFor c) (Nat.le_refl _)
  ⟨here.given, here.refused⟩

end

section
variable (variableClass : VariableClass)

theorem introduced_line (run : List Lexeme) (place : UInt16 × Span × String) (listed : Listed run place) (t : Lexeme)
    (v w z : List Lexeme) (dataType : DataType) (exported : Bool) (initializer : Option Expression)
    (typed : t.token = .word (.type dataType)) (flag : Optional (.word .exported) (v.map (·.token)) exported)
    (initial : Led .assign (w.map (·.token)) (initializer.map Expression.bare))
    (holds : Holds w initializer.toList) (ends : z.map (·.token) = [.semicolon]) :
    Introduced (run ++ t :: (v ++ (w ++ z)))
      { line := place.1, span := place.2.1, name := place.2.2, dataType, variableClass, exported, initializer } := by
  obtain ⟨⟨u, names, tokens, names_⟩, head⟩ := listed
  cases run with
  | nil => cases head
  | cons l later =>
    have whole : Line variableClass _ _ := .names dataType names_ flag initial
    have same : ((l :: later) ++ t :: (v ++ (w ++ z))).map (·.token) = u ++ .colon :: .word (.type dataType) ::
        (v.map (·.token) ++ (w.map (·.token) ++ [.semicolon])) := by
      rw [List.map_append, tokens]
      simp [typed, ends]
    rw [← same] at whole
    exact ⟨⟨_, whole⟩, head, holds_mono w _ _ holds ⟨(l :: later) ++ t :: v, z, by simp⟩⟩

theorem declarations_marks (c : Cursor) : Marks c (declarations variableClass) fun run ds =>
    0 < run.length ∧ Introduce run ds := by
  refine marks_bind (marks_with_room fun depth room => names_marks depth c (by omega)) fun u places c₁ _ listed => ?_
  refine marks_next (marks_fail _) fun l rest _ => ?_
  split
  · rename_i dataType typed
    refine marks_bind (marks_derived (marks_accept _ _) (takes_accept _)) fun v exported c₂ _ flag => ?_
    refine marks_led _ fun w value c₃ _ holds initial => ?_
    refine marks_bind (marks_derived (marks_expect c₃ _) (takes_expect _)) fun z _ _ _ ends => marks_pure _ ⟨?_, ?_⟩
    · simp only [List.length_append, List.length_cons]
      omega
    intro d member
    obtain ⟨place, among, rfl⟩ := List.mem_map.mp member
    obtain ⟨part, ⟨front, rfl⟩, here⟩ := listed place among
    refine ⟨_, ⟨front, [], ?_⟩, introduced_line variableClass part place here l v w z dataType exported value
      (Option.some.inj typed) flag.2 initial holds ends.2⟩
    simp
  · exact marks_fail _

theorem declaration_block_marks (depth : Nat) (c : Cursor) (room : c.rest.length + 1 ≤ depth) :
    Marks c (declarationBlock variableClass depth) fun run ds => 0 < run.length ∧ Introduce run ds := by
  induction depth generalizing c with
  | zero => omega
  | succ depth ih =>
    rw [declarationBlock]
    refine marks_peek ?_
    split
    · refine marks_skip ‹_› fun l rest _ _ => marks_bind (marks_optional_semicolon _) fun last _ _ _ _ => marks_pure _ ?_
      exact ⟨by simp, List.forall_mem_nil _⟩
    · refine marks_bind (declarations_marks variableClass c) fun u first c₁ less line => ?_
      obtain ⟨some, introduced⟩ := line
      refine marks_bind (ih c₁ (by omega)) fun v others c₂ _ rest => marks_pure _ ⟨by simp; omega, ?_⟩
      exact List.forall_mem_append.mpr ⟨introduce_mono u _ _ introduced ⟨[], v ++ [], by simp⟩,
        introduce_mono v _ _ rest.2 ⟨u, [], by simp⟩⟩
    · have skipped : Marks c skip fun _ _ => True :=
        marks_next (marks_pure _ trivial) fun _ _ _ => marks_pure _ trivial
      exact marks_bind skipped fun _ _ _ _ _ => marks_fail _

end

theorem declaration_blocks_marks (depth : Nat) (c : Cursor) (room : c.rest.length + 1 ≤ depth) :
    Marks c (declarationBlocks depth) Introduce := by
  induction depth generalizing c with
  | zero => omega
  | succ depth ih =>
    have later (variableClass : VariableClass) (c' : Cursor) (less : c'.rest.length + 1 ≤ depth) :
        Marks c' (declarationBlock variableClass depth >>= fun first =>
          declarationBlocks depth >>= fun others => pure (first ++ others)) Introduce := by
      refine marks_bind (declaration_block_marks variableClass depth c' (by omega)) fun u first c₁ _ block => ?_
      obtain ⟨some, introduced⟩ := block
      refine marks_bind (ih c₁ (by omega)) fun v others c₂ _ rest => marks_pure _ ?_
      exact List.forall_mem_append.mpr ⟨introduce_mono u _ _ introduced ⟨[], v ++ [], by simp⟩,
        introduce_mono v _ _ rest ⟨u, [], by simp⟩⟩
    rw [declarationBlocks]
    refine marks_peek ?_
    split
    · exact marks_pure _ (List.forall_mem_nil _)
    · rename_i opened opens
      obtain ⟨t, head, _⟩ := Option.bind_eq_some_iff.mp opens
      refine marks_skip head fun l rest length _ => ?_
      have fixed (c' : Cursor) (yes no : VariableClass) : Marks c'
          (accept (.word .constant) >>= fun found => pure (if found then yes else no)) fun _ _ => True :=
        marks_bind (marks_accept c' _) fun _ _ _ _ _ => marks_pure _ trivial
      refine marks_if (fun _ => marks_bind (fixed _ _ _) fun u variableClass c₁ less _ => ?_) fun _ => ?_
      · simp only at less
        refine marks_weaken (later variableClass c₁ (by omega)) fun run ds introduce => ?_
        exact introduce_mono run _ ds introduce ⟨l :: u, [], by simp⟩
      · have known (c' : Cursor) : Marks c' (pure opened) fun _ _ => True := marks_pure opened trivial
        refine marks_bind (known _) fun u variableClass c₁ less _ => ?_
        simp only at less
        refine marks_weaken (later variableClass c₁ (by omega)) fun run ds introduce => ?_
        exact introduce_mono run _ ds introduce ⟨l :: u, [], by simp⟩

theorem finish_marks (c : Cursor) (p : SourceProgram) : Marks c (finish p) fun _ q => q = p :=
  marks_next (marks_pure p rfl) fun _ _ _ => marks_fail _

theorem program_marks (c : Cursor) : Marks c program fun run p => Introduce run p.declarations ∧ Stand run p.statements := by
  have declared (c : Cursor) : Marks c (fun c => declarationBlocks (roomFor c) c) Introduce :=
    marks_with_room fun depth room => declaration_blocks_marks depth c (by omega)
  have body (c : Cursor) : Marks c (fun c => block (roomFor c) c) fun run body => Stand run (nestedOf body) :=
    marks_with_room fun depth room => block_marks depth c (by omega)
  have named (c : Cursor) : Marks c (identifier >>= fun name => pure (some name)) fun _ _ => True :=
    marks_identifier fun _ _ _ _ => marks_pure _ trivial
  have unnamed (c : Cursor) : Marks c (pure none : Parser (Option String)) fun _ _ => True := marks_pure none trivial
  refine marks_bind (marks_accept c _) fun a wrapped c₁ _ _ => ?_
  cases wrapped with
  | false =>
    refine marks_bind (unnamed c₁) fun n name c₂ _ _ => marks_bind (declared c₂) fun u ds c₃ _ introduce => ?_
    refine marks_bind (marks_accept c₃ _) fun v _ c₄ _ _ => marks_bind (body c₄) fun w statements c₅ _ stand => ?_
    refine marks_weaken (finish_marks c₅ _) fun last p same => ?_
    subst same
    exact ⟨introduce_mono u _ _ introduce ⟨a ++ n, v ++ (w ++ last), by simp⟩,
      stand_mono w _ _ stand ⟨a ++ (n ++ (u ++ v)), last, by simp⟩⟩
  | true =>
    refine marks_bind (named c₁) fun n name c₂ _ _ => marks_bind (declared c₂) fun u ds c₃ _ introduce => ?_
    refine marks_bind (marks_accept c₃ _) fun v _ c₄ _ _ => marks_bind (body c₄) fun w statements c₅ _ stand => ?_
    refine marks_bind (marks_expect c₅ _) fun e _ c₆ _ _ => marks_bind (marks_optional_semicolon c₆) fun o _ c₇ _ _ => ?_
    refine marks_weaken (finish_marks c₇ _) fun last p same => ?_
    subst same
    exact ⟨introduce_mono u _ _ introduce ⟨a ++ n, v ++ (w ++ (e ++ (o ++ last))), by simp⟩,
      stand_mono w _ _ stand ⟨a ++ (n ++ (u ++ v)), e ++ (o ++ last), by simp⟩⟩

end Parser

open SoftPlc.Parser

theorem parse_origins (ls : List Lexeme) (p : SourceProgram) (parsed : parse ls = .ok p) :
    Introduce ls p.declarations ∧ Stand ls p.statements := by
  unfold parse at parsed
  cases answer : program ⟨ls, 1, .unknown⟩ with
  | error f => simp [answer, Except.map] at parsed
  | ok both =>
    obtain ⟨q, c'⟩ := both
    obtain ⟨run, front, _, introduce, stand⟩ := (program_marks ⟨ls, 1, .unknown⟩).given q c' answer
    have same : q = p := by simpa [answer, Except.map] using parsed
    subst same
    have inside : run <:+: ls := ⟨[], c'.rest, by simpa using front.symm⟩
    exact ⟨introduce_mono run ls _ introduce inside, stand_mono run ls _ stand inside⟩

theorem parse_refused (ls : List Lexeme) (f : Fault) (refused : parse ls = .error f) :
    f.kind = .syntaxError ∧
      ((∃ l ∈ ls, f.line = some l.line ∧ f.span = l.span) ∨ f.line = some 1 ∧ f.span = .unknown) := by
  unfold parse at refused
  cases answer : program ⟨ls, 1, .unknown⟩ with
  | ok both => simp [answer, Except.map] at refused
  | error g =>
    have same : g = f := by simpa [answer, Except.map] using refused
    subst same
    obtain ⟨kind, place, passed, line, span⟩ := (program_marks ⟨ls, 1, .unknown⟩).refused g answer
    refine ⟨kind, ?_⟩
    rcases passed with rfl | ⟨l, member, rfl⟩
    · exact .inr ⟨line, span⟩
    · exact .inl ⟨l, member, line, span⟩

end SoftPlc
