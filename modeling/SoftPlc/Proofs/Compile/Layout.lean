import SoftPlc.Proofs.Compile.Inversion
import SoftPlc.Proofs.Language.Places

set_option autoImplicit false

namespace SoftPlc

section
variable {α β : Type}

theorem reasoned_bind (x : Except Fault α) (next : α → Except Fault β) :
    reasoned (x >>= next) = reasoned x >>= fun a => reasoned (next a) := by
  cases x <;> rfl

theorem reasoned_if (p : Prop) [Decidable p] (x y : Except Fault α) :
    reasoned (if p then x else y) = if p then reasoned x else reasoned y :=
  apply_ite reasoned p x y

end

theorem parse_alike (ls ls' : List Lexeme) (same : ls.map (·.token) = ls'.map (·.token)) :
    (reasoned (parse ls)).map SourceProgram.bare = (reasoned (parse ls')).map SourceProgram.bare := by
  have alike := congrArg (Except.map Prod.fst) (Parser.program_alike ⟨ls, 1, .unknown⟩ ⟨ls', 1, .unknown⟩ same)
  rw [parse, parse]
  generalize Parser.program ⟨ls, 1, .unknown⟩ = x at alike
  generalize Parser.program ⟨ls', 1, .unknown⟩ = y at alike
  cases x <;> cases y <;> exact alike

theorem Expression.integer_constant_bare (e : Expression) : e.bare.integerConstant = e.integerConstant := by
  induction e using Expression.integerConstant.induct with
  | case1 span n => rfl
  | case2 span e ih => rw [bare, integerConstant, integerConstant, ih]
  | case3 e literal negated =>
    cases e with
    | integer span n => exact absurd rfl (literal span n)
    | negation span e => exact absurd rfl (negated span e)
    | _ => simp only [bare, integerConstant]

theorem Expression.length_bare_all (es : List Expression) : (bareAll es).length = es.length := by
  induction es with
  | nil => rfl
  | cons e rest ih => rw [bareAll, List.length_cons, List.length_cons, ih]

namespace Compile

theorem reasoned_fail {α : Type} (kind : Fault.Kind) (span : Span) (message : String) :
    reasoned (failAt kind span message : Except Fault α) = .error (kind, message) := rfl

theorem reasoned_with_line {α : Type} (line : UInt16) (x : Except Fault α) :
    reasoned (withLine line x) = reasoned x := by
  cases x <;> rfl

theorem reasoned_room (line : UInt16) (stop : Nat) :
    reasoned (checkRoom line stop) = reasoned (checkRoom 0 stop) := by
  rw [checkRoom, checkRoom, reasoned_if, reasoned_if]
  rfl

theorem integer_literal_bare (n : Int) (span : Span) :
    reasoned (integerLiteral n span) = reasoned (integerLiteral n .unknown) := by
  rw [integerLiteral, integerLiteral]
  cases narrowest? n <;> rfl

theorem binary_bare (span : Span) (op : BinaryOp) (left right : Fragment) :
    reasoned (binary span op left right) = reasoned (binary .unknown op left right) := by
  have operands (t : DataType) : reasoned (checkOperands op t span) = reasoned (checkOperands op t .unknown) := by
    cases op <;> simp only [checkOperands, reasoned_if, reasoned_fail]
  simp only [binary, reasoned_bind, reasoned_if, reasoned_fail, operands]

theorem negation_bare (span : Span) (f : Fragment) :
    reasoned (negation span f) = reasoned (negation .unknown f) := by
  simp only [negation, reasoned_if, reasoned_fail]

theorem complement_bare (span : Span) (f : Fragment) :
    reasoned (complement span f) = reasoned (complement .unknown f) := by
  simp only [complement, reasoned_if, reasoned_fail]

theorem signature_bare (span : Span) (name : String) (count : Nat) :
    reasoned (signatureFor span name count) = reasoned (signatureFor .unknown name count) := by
  rw [signatureFor, signatureFor]
  cases Signature.ofName? name with
  | none => rfl
  | some s => simp only [reasoned_if, reasoned_fail]

theorem call_bare (span : Span) (signature : Signature) (args : List Fragment) :
    reasoned (call span signature args) = reasoned (call .unknown signature args) := by
  rw [call.eq_def, call.eq_def]
  split <;> simp only [reasoned_if, reasoned_fail]

section
variable (vars : List Variable)

theorem lookup_bare (name : String) (span : Span) :
    reasoned (lookup vars name span) = reasoned (lookup vars name .unknown) := by
  rw [lookup, lookup]
  cases Variable.lookup? name vars <;> rfl

mutual
theorem expression_bare (e : Expression) : reasoned (expression vars e) = reasoned (expression vars e.bare) := by
  match e with
  | .integer span n => simp only [expression, Expression.bare, reasoned_bind, integer_literal_bare]
  | .real span x => rfl
  | .bool span b => rfl
  | .named span name => simp only [expression, Expression.bare, reasoned_bind, lookup_bare]
  | .negation span e =>
    have operand := expression_bare e
    cases e with
    | integer inner n => simp only [expression, Expression.bare, reasoned_bind, integer_literal_bare]
    | real inner x => simp only [expression, Expression.bare]
    | bool inner b => simp only [expression, Expression.bare, reasoned_bind, negation_bare]
    | _ =>
      simp only [expression, Expression.bare, reasoned_bind, negation_bare] at operand ⊢
      rw [operand]
  | .complement span e => simp only [expression, Expression.bare, reasoned_bind, complement_bare, expression_bare e]
  | .binary span op l r =>
    simp only [expression, Expression.bare, reasoned_bind, binary_bare, expression_bare l, expression_bare r]
  | .call span name args =>
    simp only [expression, Expression.bare, reasoned_bind, signature_bare, call_bare, expressions_bare args,
      Expression.length_bare_all]

theorem expressions_bare (es : List Expression) :
    reasoned (expressions vars es) = reasoned (expressions vars (Expression.bareAll es)) := by
  match es with
  | [] => rfl
  | e :: rest =>
    simp only [expressions, Expression.bareAll, reasoned_bind, expression_bare e, expressions_bare rest]
end

theorem constant_bare (e : Expression) : reasoned (constant e) = reasoned (constant e.bare) := by
  cases e with
  | integer span n => simp only [constant, Expression.bare, integer_literal_bare]
  | negation span e =>
    cases e <;> simp only [constant, Expression.bare, integer_literal_bare, reasoned_fail]
  | _ => simp only [constant, Expression.bare, reasoned_fail]

theorem initial_value_bare (d : Declaration) : reasoned (initialValue d) = reasoned (initialValue d.bare) := by
  obtain ⟨line, span, name, t, variableClass, exported, initializer⟩ := d
  dsimp only [Declaration.bare]
  cases initializer with
  | none => simp only [initialValue, Option.map_none, reasoned_if, reasoned_fail]
  | some e => simp only [initialValue, Option.map_some, reasoned_bind, reasoned_if, reasoned_fail, constant_bare e]

theorem declare_bare (before : List Variable) (d : Declaration) :
    reasoned (declare before d) = reasoned (declare before d.bare) := by
  simp only [declare, reasoned_bind, reasoned_if, reasoned_fail, initial_value_bare d]
  rfl

theorem declare_all_bare (ds : List Declaration) (before : List Variable) :
    reasoned (declareAll before ds) = reasoned (declareAll before (ds.map Declaration.bare)) := by
  induction ds generalizing before with
  | nil => rfl
  | cons d rest ih =>
    simp only [declareAll, List.map_cons, reasoned_bind, reasoned_with_line, declare_bare before d, ih]

theorem condition_bare (e : Expression) : reasoned (condition vars e) = reasoned (condition vars e.bare) := by
  simp only [condition, reasoned_bind, reasoned_if, reasoned_fail, expression_bare vars e]

theorem target_bare (name : String) (span : Span) :
    reasoned (target vars name span) = reasoned (target vars name .unknown) := by
  simp only [target, reasoned_bind, reasoned_if, reasoned_fail, lookup_bare]

theorem assignment_bare (span : Span) (name : String) (value : Expression) :
    reasoned (assignment vars span name value) = reasoned (assignment vars .unknown name value.bare) := by
  simp only [assignment, reasoned_bind, reasoned_if, reasoned_fail, target_bare, expression_bare vars value]

theorem bound_bare (t : DataType) (e : Expression) : reasoned (bound vars t e) = reasoned (bound vars t e.bare) := by
  simp only [bound, reasoned_bind, reasoned_if, reasoned_fail, expression_bare vars e]

theorem counting_bare (span : Span) (name : String) (first last : Expression) (step : Option Expression) :
    reasoned (counting vars span name first last step) =
      reasoned (counting vars .unknown name first.bare last.bare (step.map Expression.bare)) := by
  cases step with
  | none =>
    simp only [counting, Option.map_none, reasoned_bind, reasoned_if, reasoned_fail, target_bare,
      bound_bare vars _ first, bound_bare vars _ last]
  | some e =>
    simp only [counting, Option.map_some, reasoned_bind, reasoned_if, reasoned_fail, target_bare,
      bound_bare vars _ first, bound_bare vars _ last, bound_bare vars _ e, Expression.integer_constant_bare]

theorem selector_bare (e : Expression) : reasoned (selector vars e) = reasoned (selector vars e.bare) := by
  simp only [selector, reasoned_bind, reasoned_if, reasoned_fail, expression_bare vars e]

theorem label_value_bare (n : Int) (t : DataType) (span : Span) :
    reasoned (labelValue n t span) = reasoned (labelValue n t .unknown) := by
  cases t <;> simp only [labelValue, reasoned_if, reasoned_fail]

theorem label_test_bare (line : UInt16) (span : Span) (t : DataType) (base : Nat) (label : CaseLabel) :
    reasoned (labelTest line span t base label) = reasoned (labelTest 0 .unknown t base label) := by
  cases label <;> simp only [labelTest, reasoned_bind, reasoned_room line, label_value_bare _ t span]

theorem label_tests_bare (line : UInt16) (span : Span) (t : DataType) (labels : List CaseLabel) (base : Nat) :
    reasoned (labelTests line span t base labels) = reasoned (labelTests 0 .unknown t base labels) := by
  induction labels generalizing base with
  | nil => rfl
  | cons label rest ih => simp only [labelTests, reasoned_bind, label_test_bare line span, ih]

theorem arm_tests_bare (line line' : UInt16) (span span' : Span) (t : DataType)
    (arms : List (List CaseLabel × List Statement)) (base : Nat) :
    reasoned (armTests line span t base arms) =
      reasoned (armTests line' span' t base (Statement.bareArms arms)) := by
  induction arms generalizing base with
  | nil => rfl
  | cons arm rest ih =>
    simp only [armTests, Statement.bareArms, reasoned_bind, label_tests_bare line span,
      label_tests_bare line' span', ih]

theorem tests_length_bare (arms : List (List CaseLabel × List Statement)) :
    (Statement.bareArms arms).map (fun arm => testsLength arm.1) = arms.map fun arm => testsLength arm.1 := by
  induction arms with
  | nil => rfl
  | cons arm rest ih => rw [Statement.bareArms, List.map_cons, List.map_cons, ih]

open Statement

mutual
theorem statement_bare (loops base : Nat) (s : Statement) :
    reasoned (statement vars loops base s) = reasoned (statement vars loops base s.bare) := by
  match s with
  | .assign line span name value =>
    simp only [statement, Statement.bare, reasoned_with_line, reasoned_bind, assignment_bare vars span name value,
      reasoned_room line]
  | .choose line branches otherwise =>
    simp only [statement, Statement.bare, reasoned_with_line]
    exact choice_bare loops base line 0 branches _ _ fun base => block_bare loops base otherwise
  | .select line e arms otherwise =>
    simp only [statement, Statement.bare, reasoned_with_line, reasoned_bind, selector_bare vars e,
      arm_tests_bare line 0 e.span e.bare.span _ arms, tests_length_bare, reasoned_room line,
      reasoned_room (lastLineOf _ _), block_bare loops _ otherwise,
      arm_bodies_bare loops _ _ (lastLineOf 0 (bareBlock otherwise)) arms]
  | .count line span name first last step body =>
    simp only [statement, Statement.bare, reasoned_with_line, reasoned_bind,
      counting_bare vars span name first last step, reasoned_room line, reasoned_room (lastLineOf _ _),
      block_bare (loops + 1) _ body]
  | .while line cond body =>
    simp only [statement, Statement.bare, reasoned_with_line, reasoned_bind, condition_bare vars cond,
      reasoned_room line, reasoned_room (lastLineOf _ _), block_bare (loops + 1) _ body]
  | .repeat line body cond =>
    simp only [statement, Statement.bare, reasoned_with_line, reasoned_bind, condition_bare vars cond,
      reasoned_room (lastLineOf _ _), block_bare (loops + 1) _ body]
  | .exit line span =>
    simp only [statement, Statement.bare, reasoned_with_line, reasoned_bind, reasoned_if, reasoned_fail,
      reasoned_room line]
  | .leave line =>
    simp only [statement, Statement.bare, reasoned_with_line, reasoned_bind, reasoned_room line]

theorem block_bare (loops base : Nat) (body : List Statement) :
    reasoned (block vars loops base body) = reasoned (block vars loops base (bareBlock body)) := by
  match body with
  | [] => rfl
  | s :: rest =>
    simp only [block, bareBlock, reasoned_bind, statement_bare loops base s, block_bare loops _ rest]

theorem choice_bare (loops base : Nat) (line line' : UInt16) (branches : List (Expression × List Statement))
    (elseCode elseCode' : Nat → Except Fault (List Item))
    (same : ∀ base, reasoned (elseCode base) = reasoned (elseCode' base)) :
    reasoned (choice vars loops base line elseCode branches) =
      reasoned (choice vars loops base line' elseCode' (bareBranches branches)) := by
  match branches with
  | [] =>
    simp only [choice, bareBranches]
    exact same base
  | (cond, body) :: rest =>
    simp only [choice, bareBranches, reasoned_bind, condition_bare vars cond, reasoned_room line,
      reasoned_room line', reasoned_room (lastLineOf _ _), block_bare loops _ body,
      choice_bare loops _ _ (lastLineOf line' (bareBlock body)) rest elseCode elseCode' same]

theorem arm_bodies_bare (loops base : Nat) (line line' : UInt16)
    (arms : List (List CaseLabel × List Statement)) :
    reasoned (armBodies vars loops base line arms) =
      reasoned (armBodies vars loops base line' (bareArms arms)) := by
  match arms with
  | [] => rfl
  | (labels, body) :: rest =>
    simp only [armBodies, bareArms, reasoned_bind, reasoned_room line, reasoned_room line',
      reasoned_room (lastLineOf _ _), block_bare loops _ body,
      arm_bodies_bare loops _ _ (lastLineOf line' (bareBlock body)) rest]
end

end

end Compile

theorem SourceProgram.compile_bare (p : SourceProgram) : reasoned p.compile = reasoned p.bare.compile := by
  simp only [SourceProgram.compile, SourceProgram.bare, reasoned_bind, Compile.declare_all_bare p.declarations,
    Compile.block_bare _ 0 0 p.body, Compile.reasoned_room (Compile.lastLineOf _ _)]

theorem compile_alike (ls ls' : List Lexeme) (same : ls.map (·.token) = ls'.map (·.token)) :
    reasoned (parse ls >>= SourceProgram.compile) = reasoned (parse ls' >>= SourceProgram.compile) := by
  have forgetful (x : Except Fault SourceProgram) : reasoned (x >>= SourceProgram.compile) =
      (reasoned x).map SourceProgram.bare >>= fun p => reasoned p.compile := by
    cases x with
    | error f => rfl
    | ok p => exact p.compile_bare
  rw [forgetful, forgetful, parse_alike ls ls' same]

-- The two texts may differ in their blanks, line ends and comments and in the case of their letters.
theorem layout_is_meaningless (s t : String) (same : (scan s).map (·.token) = (scan t).map (·.token)) :
    (∃ b, compile s = .ok b ∧ compile t = .ok b) ∨
      ∃ f g, compile s = .error f ∧ compile t = .error g ∧ f.kind = g.kind ∧ f.message = g.message := by
  have alike : reasoned (compile s) = reasoned (compile t) := compile_alike (scan s) (scan t) same
  cases first : compile s with
  | ok b =>
    cases second : compile t with
    | ok c =>
      rw [first, second] at alike
      cases alike
      exact .inl ⟨b, rfl, rfl⟩
    | error g =>
      rw [first, second] at alike
      cases alike
  | error f =>
    cases second : compile t with
    | ok c =>
      rw [first, second] at alike
      cases alike
    | error g =>
      rw [first, second] at alike
      obtain ⟨kind, message⟩ := Prod.mk.inj (Except.error.inj alike)
      exact .inr ⟨f, g, rfl, rfl, kind, message⟩

theorem refused_with (source : String) (fact : Fault → Prop) [DecidablePred fact]
    (checked : (match compile source with | .ok _ => false | .error f => decide (fact f)) = true) :
    ∃ f, compile source = .error f ∧ fact f := by
  cases compiled : compile source with
  | ok b => simp [compiled] at checked
  | error f => exact ⟨f, rfl, by simpa [compiled] using checked⟩

theorem spread_texts_are_alike :
    (∃ b, compile "VAR count:INT;END_VAR count:=count+1;" = .ok b ∧
      compile "var Count : int; (* how often *) end_var\n\tCOUNT := count + 1; // once more" = .ok b) ∧
    ∃ f g, compile "VAR a:INT;END_VAR a:=TRUE;" = .error f ∧
      compile "var A : int;\nend_var // too late\n\n  a := true;" = .error g ∧
      f.line = some 1 ∧ g.line = some 4 ∧ f.kind = g.kind ∧ f.message = g.message := by
  constructor
  · obtain ⟨b, accepted, -⟩ : ∃ b, compile "VAR count:INT;END_VAR count:=count+1;" = .ok b ∧ True :=
      Compile.accepted_with _ _ (by decide +kernel)
    obtain both | ⟨f, g, refused, -⟩ := layout_is_meaningless "VAR count:INT;END_VAR count:=count+1;"
      "var Count : int; (* how often *) end_var\n\tCOUNT := count + 1; // once more" (by decide +kernel)
    · exact both
    · cases accepted.symm.trans refused
  · obtain ⟨f, refused, first⟩ : ∃ f, compile "VAR a:INT;END_VAR a:=TRUE;" = .error f ∧ f.line = some 1 :=
      refused_with _ _ (by decide +kernel)
    obtain ⟨g, refused', fourth⟩ : ∃ g, compile "var A : int;\nend_var // too late\n\n  a := true;" = .error g ∧
        g.line = some 4 := refused_with _ _ (by decide +kernel)
    obtain ⟨b, accepted, -⟩ | ⟨f', g', same, same', alike⟩ := layout_is_meaningless "VAR a:INT;END_VAR a:=TRUE;"
      "var A : int;\nend_var // too late\n\n  a := true;" (by decide +kernel)
    · cases accepted.symm.trans refused
    · cases same.symm.trans refused
      cases same'.symm.trans refused'
      exact ⟨f, g, refused, refused', first, fourth, alike⟩

end SoftPlc
