import SoftPlc.Proofs.Language.Acceptance

set_option autoImplicit false

namespace SoftPlc

def Fault.reason (f : Fault) : Fault.Kind × String := (f.kind, f.message)

def reasoned {α : Type} (x : Except Fault α) : Except (Fault.Kind × String) α := x.mapError Fault.reason

namespace Parser

section
variable {α β γ δ : Type}

-- The runs of two rules on the same tokens are told apart neither by what is viewed of their values
-- nor by what they leave.
def Alike (view : α → γ) (rule rule' : Parser α) : Prop :=
  ∀ c c', c.tokens = c'.tokens →
    (reasoned (rule c)).map (fun r => (view r.1, r.2.tokens)) =
      (reasoned (rule' c')).map (fun r => (view r.1, r.2.tokens))

variable {view : α → γ} {result : β → δ}

theorem alike_pure (a a' : α) (same : view a = view a') : Alike view (pure a) (pure a') := by
  intro c c' tokens
  exact congrArg Except.ok (Prod.ext same tokens)

theorem alike_fail (message : String) : Alike view (fail message) (fail message) := fun _ _ _ => rfl

theorem alike_too_deep : Alike view tooDeep tooDeep := fun _ _ _ => rfl

theorem alike_bind {rule rule' : Parser α} {next next' : α → Parser β} (first : Alike view rule rule')
    (second : ∀ a a', view a = view a' → Alike result (next a) (next' a')) :
    Alike result (rule >>= next) (rule' >>= next') := by
  intro c c' tokens
  have front := first c c' tokens
  simp only [bind, StateT.bind, Except.bind]
  cases taken : rule c with
  | error f =>
    cases taken' : rule' c' with
    | error g =>
      rw [taken, taken'] at front
      exact congrArg Except.error (Except.error.inj front)
    | ok r' =>
      rw [taken, taken'] at front
      cases front
  | ok r =>
    cases taken' : rule' c' with
    | error g =>
      rw [taken, taken'] at front
      cases front
    | ok r' =>
      rw [taken, taken'] at front
      obtain ⟨same, left⟩ := Prod.mk.inj (Except.ok.inj front)
      exact second r.1 r'.1 same r.2 r'.2 left

theorem alike_then {rule rule' : Parser α} {next next' : α → Parser β} (first : Alike id rule rule')
    (second : ∀ a, Alike result (next a) (next' a)) : Alike result (rule >>= next) (rule' >>= next') := by
  apply alike_bind first
  rintro a _ rfl
  exact second a

theorem alike_if {p : Prop} [Decidable p] {yes yes' no no' : Parser α} (holds : Alike view yes yes')
    (fails : Alike view no no') : Alike view (if p then yes else no) (if p then yes' else no') := by
  by_cases h : p
  · simpa only [if_pos h] using holds
  · simpa only [if_neg h] using fails

theorem here_alike {next next' : UInt16 → Parser β}
    (second : ∀ line line', Alike result (next line) (next' line')) :
    Alike result (here >>= next) (here >>= next') := fun c c' => second c.line c'.line c c'

theorem columns_alike {next next' : Span → Parser β}
    (second : ∀ span span', Alike result (next span) (next' span')) :
    Alike result (columns >>= next) (columns >>= next') := fun c c' => second c.span c'.span c c'

theorem alike_with_room {rule : Nat → Parser α} (alike : ∀ depth, Alike view (rule depth) (rule depth)) :
    Alike view (fun c => rule (roomFor c) c) fun c => rule (roomFor c) c := by
  intro c c' tokens
  have room : roomFor c = roomFor c' := by
    have length : c.rest.length = c'.rest.length := by
      simpa only [Cursor.tokens, List.length_map] using congrArg List.length tokens
    rw [roomFor, roomFor, length]
  simpa only [room] using alike (roomFor c') c c' tokens

end

theorem next_alike : Alike id next next := by
  rintro ⟨rest, line, span⟩ ⟨rest', line', span'⟩ tokens
  cases rest with
  | nil =>
    cases rest' with
    | nil => rfl
    | cons l rest' => cases tokens
  | cons l rest =>
    cases rest' with
    | nil => cases tokens
    | cons l' rest' =>
      obtain ⟨token, behind⟩ := List.cons.inj tokens
      exact congrArg Except.ok (Prod.ext (congrArg some token) behind)

theorem peek_alike : Alike id peek peek := by
  intro c c' tokens
  have head : c.rest.head?.map (·.token) = c'.rest.head?.map (·.token) := by
    simpa only [Cursor.tokens, List.head?_map] using congrArg List.head? tokens
  exact congrArg Except.ok (Prod.ext head tokens)

theorem skip_alike : Alike id skip skip := alike_then next_alike fun _ => alike_pure () () rfl

theorem accept_alike (t : Token) : Alike id (accept t) (accept t) :=
  alike_then peek_alike fun _ => alike_if (alike_then skip_alike fun _ => alike_pure true true rfl)
    (alike_pure false false rfl)

theorem optional_semicolon_alike : Alike id optionalSemicolon optionalSemicolon :=
  alike_then (accept_alike .semicolon) fun _ => alike_pure () () rfl

theorem expect_alike (t : Token) : Alike id (expect t) (expect t) := by
  apply alike_then next_alike
  intro found
  cases found with
  | none => exact alike_fail _
  | some found => exact alike_if (alike_pure () () rfl) (alike_fail _)

theorem identifier_alike : Alike id identifier identifier := by
  apply alike_then next_alike
  intro found
  split
  · exact alike_pure _ _ rfl
  · exact alike_fail _

mutual
theorem operation_alike (depth strength : Nat) :
    Alike Expression.bare (operation depth strength) (operation depth strength) := by
  match depth with
  | 0 => exact alike_too_deep
  | depth + 1 =>
    rw [operation]
    exact alike_bind (operand_alike depth) (operations_after_alike depth strength)

theorem operations_after_alike (depth strength : Nat) (left left' : Expression) (same : left.bare = left'.bare) :
    Alike Expression.bare (operationsAfter depth strength left) (operationsAfter depth strength left') := by
  match depth with
  | 0 => exact alike_too_deep
  | depth + 1 =>
    rw [operationsAfter, operationsAfter]
    refine alike_then peek_alike fun t => ?_
    split
    · refine alike_if (alike_pure _ _ same) (alike_then skip_alike fun _ => columns_alike fun span span' => ?_)
      refine alike_bind (operation_alike depth _) fun right right' other => ?_
      apply operations_after_alike
      simp only [Expression.bare, same, other]
    · exact alike_pure _ _ same

theorem operand_alike (depth : Nat) : Alike Expression.bare (operand depth) (operand depth) := by
  match depth with
  | 0 => exact alike_too_deep
  | depth + 1 =>
    rw [operand]
    refine alike_then peek_alike fun t => ?_
    split
    · refine alike_then skip_alike fun _ => columns_alike fun span span' => ?_
      refine alike_bind (operand_alike depth) fun e e' same => alike_pure _ _ ?_
      simp only [Expression.bare, same]
    · refine alike_then skip_alike fun _ => columns_alike fun span span' => ?_
      refine alike_bind (operand_alike depth) fun e e' same => alike_pure _ _ ?_
      simp only [Expression.bare, same]
    · exact primary_alike depth

theorem primary_alike (depth : Nat) : Alike Expression.bare (primary depth) (primary depth) := by
  match depth with
  | 0 => exact alike_too_deep
  | depth + 1 =>
    rw [primary]
    refine alike_then next_alike fun t => ?_
    split
    · refine alike_bind (operation_alike depth 0) fun e e' same => ?_
      exact alike_then (expect_alike _) fun _ => alike_pure _ _ same
    · refine columns_alike fun span span' => alike_then (accept_alike _) fun opened => ?_
      refine alike_if (alike_then (accept_alike _) fun closed => alike_if (alike_pure _ _ rfl) ?_) (alike_pure _ _ rfl)
      refine alike_bind (arguments_alike depth) fun args args' same => alike_pure _ _ ?_
      simp only [Expression.bare, same]
    · exact columns_alike fun span span' => alike_pure _ _ rfl
    · exact columns_alike fun span span' => alike_pure _ _ rfl
    · exact columns_alike fun span span' => alike_pure _ _ rfl
    · exact alike_fail _

theorem arguments_alike (depth : Nat) : Alike Expression.bareAll (arguments depth) (arguments depth) := by
  match depth with
  | 0 => exact alike_too_deep
  | depth + 1 =>
    rw [arguments]
    refine alike_bind (operation_alike depth 0) fun first first' same => alike_then next_alike fun t => ?_
    split
    · refine alike_pure _ _ ?_
      simp only [Expression.bareAll, same]
    · refine alike_bind (arguments_alike depth) fun others others' rest => alike_pure _ _ ?_
      simp only [Expression.bareAll, same, rest]
    · exact alike_fail _
end

theorem expression_alike : Alike Expression.bare expression expression :=
  alike_with_room fun depth => operation_alike depth 0

theorem led_alike {β δ : Type} {result : β → δ} (t : Token) {next next' : Option Expression → Parser β}
    (second : ∀ value value', value.map Expression.bare = value'.map Expression.bare →
      Alike result (next value) (next' value')) :
    Alike result
      (accept t >>= fun given =>
        if given then (expression >>= fun e => pure (some e)) >>= next else pure none >>= next)
      (accept t >>= fun given =>
        if given then (expression >>= fun e => pure (some e)) >>= next' else pure none >>= next') := by
  have given : Alike (Option.map Expression.bare) (expression >>= fun e => pure (some e))
      (expression >>= fun e => pure (some e)) :=
    alike_bind expression_alike fun e e' same => alike_pure _ _ (congrArg some same)
  have absent : Alike (Option.map Expression.bare) (pure none) (pure none) := alike_pure none none rfl
  exact alike_then (accept_alike t) fun _ => alike_if (alike_bind given second) (alike_bind absent second)

theorem signed_integer_alike : Alike id signedInteger signedInteger := by
  refine alike_then (accept_alike _) fun negative => alike_then next_alike fun t => ?_
  split
  · exact alike_pure _ _ rfl
  · exact alike_fail _

theorem case_label_alike : Alike id caseLabel caseLabel := by
  refine alike_then signed_integer_alike fun low => alike_then (accept_alike _) fun dots => ?_
  refine alike_if (alike_then signed_integer_alike fun high => ?_) (alike_pure _ _ rfl)
  exact alike_if (alike_fail _) (alike_pure _ _ rfl)

theorem case_labels_alike (depth : Nat) : Alike id (caseLabels depth) (caseLabels depth) := by
  induction depth with
  | zero => exact alike_too_deep
  | succ depth ih =>
    rw [caseLabels]
    refine alike_then case_label_alike fun label => alike_then next_alike fun t => ?_
    split
    · exact alike_then ih fun others => alike_pure _ _ rfl
    · exact alike_pure _ _ rfl
    · exact alike_fail _

open Statement

mutual
theorem block_alike (depth : Nat) : Alike bareBlock (block depth) (block depth) := by
  match depth with
  | 0 => exact alike_too_deep
  | depth + 1 =>
    rw [block]
    refine alike_then peek_alike fun t => ?_
    split
    · exact alike_then skip_alike fun _ => block_alike depth
    · refine alike_if ?_ (alike_pure _ _ rfl)
      refine alike_bind (statement_alike depth) fun s s' same => ?_
      refine alike_bind (block_alike depth) fun others others' rest => alike_pure _ _ ?_
      simp only [bareBlock, same, rest]
    · exact alike_pure _ _ rfl

theorem statement_alike (depth : Nat) : Alike Statement.bare (statement depth) (statement depth) := by
  match depth with
  | 0 => exact alike_too_deep
  | depth + 1 =>
    rw [statement]
    refine alike_then next_alike fun t => here_alike fun line line' => columns_alike fun span span' => ?_
    split
    · refine alike_then (expect_alike _) fun _ => alike_bind expression_alike fun e e' same => ?_
      refine alike_then (expect_alike _) fun _ => alike_pure _ _ ?_
      simp only [Statement.bare, same]
    · refine alike_bind expression_alike fun e e' condition => alike_then (expect_alike _) fun _ => ?_
      refine alike_bind (block_alike depth) fun body body' inner => ?_
      refine alike_bind (branches_alike depth) fun both both' rest => ?_
      refine alike_then optional_semicolon_alike fun _ => alike_pure _ _ ?_
      obtain ⟨branches, otherwise⟩ := Prod.mk.inj rest
      simp only [Statement.bare, bareBranches, condition, inner, branches, otherwise]
    · refine alike_bind expression_alike fun e e' selector => alike_then (expect_alike _) fun _ => ?_
      refine alike_bind (arms_alike depth) fun both both' rest => ?_
      refine alike_then optional_semicolon_alike fun _ => alike_pure _ _ ?_
      obtain ⟨arms, otherwise⟩ := Prod.mk.inj rest
      simp only [Statement.bare, selector, arms, otherwise]
    · refine alike_then identifier_alike fun name => columns_alike fun span span' => ?_
      refine alike_then (expect_alike _) fun _ => alike_bind expression_alike fun low low' start => ?_
      refine alike_then (expect_alike _) fun _ => alike_bind expression_alike fun high high' stop => ?_
      refine led_alike _ fun step step' steps => alike_then (expect_alike _) fun _ => ?_
      refine alike_bind (block_alike depth) fun body body' inner => alike_then (expect_alike _) fun _ => ?_
      refine alike_then optional_semicolon_alike fun _ => alike_pure _ _ ?_
      simp only [Statement.bare, start, stop, steps, inner]
    · refine alike_bind expression_alike fun e e' condition => alike_then (expect_alike _) fun _ => ?_
      refine alike_bind (block_alike depth) fun body body' inner => alike_then (expect_alike _) fun _ => ?_
      refine alike_then optional_semicolon_alike fun _ => alike_pure _ _ ?_
      simp only [Statement.bare, condition, inner]
    · refine alike_bind (block_alike depth) fun body body' inner => alike_then (expect_alike _) fun _ => ?_
      refine alike_bind expression_alike fun e e' condition => alike_then (expect_alike _) fun _ => ?_
      refine alike_then optional_semicolon_alike fun _ => alike_pure _ _ ?_
      simp only [Statement.bare, condition, inner]
    · exact alike_then (expect_alike _) fun _ => alike_pure _ _ rfl
    · exact alike_then (expect_alike _) fun _ => alike_pure _ _ rfl
    · exact alike_fail _
    · exact alike_fail _

theorem branches_alike (depth : Nat) :
    Alike (fun both => (bareBranches both.1, bareBlock both.2)) (branchesAfter depth) (branchesAfter depth) := by
  match depth with
  | 0 => exact alike_too_deep
  | depth + 1 =>
    rw [branchesAfter]
    refine alike_then next_alike fun t => ?_
    split
    · refine alike_bind expression_alike fun e e' condition => alike_then (expect_alike _) fun _ => ?_
      refine alike_bind (block_alike depth) fun body body' inner => ?_
      refine alike_bind (branches_alike depth) fun both both' rest => alike_pure _ _ ?_
      obtain ⟨branches, otherwise⟩ := Prod.mk.inj rest
      simp only [bareBranches, condition, inner, branches, otherwise]
    · refine alike_bind (block_alike depth) fun body body' inner => alike_then (expect_alike _) fun _ => ?_
      exact alike_pure _ _ (Prod.ext rfl inner)
    · exact alike_pure _ _ rfl
    · exact alike_fail _

theorem arms_alike (depth : Nat) :
    Alike (fun both => (bareArms both.1, bareBlock both.2)) (caseArms depth) (caseArms depth) := by
  match depth with
  | 0 => exact alike_too_deep
  | depth + 1 =>
    rw [caseArms]
    refine alike_then peek_alike fun t => ?_
    split
    · refine alike_then skip_alike fun _ => alike_bind (block_alike depth) fun body body' inner => ?_
      exact alike_then (expect_alike _) fun _ => alike_pure _ _ (Prod.ext rfl inner)
    · exact alike_then skip_alike fun _ => alike_pure _ _ rfl
    · refine alike_then (case_labels_alike depth) fun labels => ?_
      refine alike_bind (block_alike depth) fun body body' inner => ?_
      refine alike_bind (arms_alike depth) fun both both' rest => alike_pure _ _ ?_
      obtain ⟨arms, otherwise⟩ := Prod.mk.inj rest
      simp only [bareArms, inner, arms, otherwise]
end

theorem names_alike (depth : Nat) :
    Alike (List.map (·.2.2)) (declaredNames depth) (declaredNames depth) := by
  induction depth with
  | zero => exact alike_too_deep
  | succ depth ih =>
    rw [declaredNames]
    refine alike_then identifier_alike fun name => here_alike fun line line' => columns_alike fun span span' => ?_
    refine alike_then next_alike fun t => ?_
    split
    · exact alike_bind ih fun others others' rest => alike_pure _ _ (congrArg (name :: ·) rest)
    · exact alike_pure _ _ rfl
    · exact alike_fail _

section
variable (variableClass : VariableClass)

theorem declarations_alike :
    Alike (List.map Declaration.bare) (declarations variableClass) (declarations variableClass) := by
  refine alike_bind (alike_with_room names_alike) fun places places' listed => alike_then next_alike fun t => ?_
  split
  · rename_i dataType
    refine alike_then (accept_alike _) fun exported => led_alike _ fun value value' initial => ?_
    refine alike_then (expect_alike _) fun _ => alike_pure _ _ ?_
    let make (name : String) : Declaration :=
      Declaration.mk 0 .unknown name dataType variableClass exported (value'.map Expression.bare)
    simpa [Declaration.bare, Function.comp_def, initial, make] using congrArg (List.map make) listed
  · exact alike_fail _

theorem declaration_block_alike (depth : Nat) : Alike (List.map Declaration.bare)
    (declarationBlock variableClass depth) (declarationBlock variableClass depth) := by
  induction depth with
  | zero => exact alike_too_deep
  | succ depth ih =>
    rw [declarationBlock]
    refine alike_then peek_alike fun t => ?_
    split
    · exact alike_then skip_alike fun _ => alike_then optional_semicolon_alike fun _ => alike_pure _ _ rfl
    · refine alike_bind (declarations_alike variableClass) fun first first' same => ?_
      refine alike_bind ih fun others others' rest => alike_pure _ _ ?_
      simp only [List.map_append, same, rest]
    · exact alike_then skip_alike fun _ => alike_fail _

end

theorem declaration_blocks_alike (depth : Nat) :
    Alike (List.map Declaration.bare) (declarationBlocks depth) (declarationBlocks depth) := by
  induction depth with
  | zero => exact alike_too_deep
  | succ depth ih =>
    rw [declarationBlocks]
    refine alike_then peek_alike fun t => ?_
    split
    · exact alike_pure _ _ rfl
    · have blocks (variableClass : VariableClass) : Alike (List.map Declaration.bare)
          (declarationBlock variableClass depth >>= fun first =>
            declarationBlocks depth >>= fun others => pure (first ++ others))
          (declarationBlock variableClass depth >>= fun first =>
            declarationBlocks depth >>= fun others => pure (first ++ others)) := by
        refine alike_bind (declaration_block_alike variableClass depth) fun first first' same => ?_
        refine alike_bind ih fun others others' rest => alike_pure _ _ ?_
        simp only [List.map_append, same, rest]
      have fixed (yes no : VariableClass) : Alike id
          (accept (.word .constant) >>= fun found => pure (if found then yes else no))
          (accept (.word .constant) >>= fun found => pure (if found then yes else no)) :=
        alike_then (accept_alike _) fun _ => alike_pure _ _ rfl
      exact alike_then skip_alike fun _ => alike_if (alike_then (fixed _ _) blocks) (blocks _)

theorem program_alike : Alike SourceProgram.bare program program := by
  have finish (p p' : SourceProgram) (same : p.bare = p'.bare) : Alike SourceProgram.bare (finish p) (finish p') := by
    refine alike_then next_alike fun t => ?_
    cases t with
    | none => exact alike_pure p p' same
    | some t => exact alike_fail _
  refine alike_then (accept_alike _) fun wrapped => ?_
  cases wrapped with
  | false =>
    refine alike_then (alike_pure none none rfl) fun name => ?_
    refine alike_bind (alike_with_room declaration_blocks_alike) fun ds ds' declared => ?_
    refine alike_then (accept_alike _) fun _ => alike_bind (alike_with_room block_alike) fun body body' inner => ?_
    apply finish
    simp only [SourceProgram.bare, declared, inner]
  | true =>
    have named : Alike id (identifier >>= fun name => pure (some name)) (identifier >>= fun name => pure (some name)) :=
      alike_then identifier_alike fun name => alike_pure _ _ rfl
    refine alike_then named fun name => ?_
    refine alike_bind (alike_with_room declaration_blocks_alike) fun ds ds' declared => ?_
    refine alike_then (accept_alike _) fun _ => alike_bind (alike_with_room block_alike) fun body body' inner => ?_
    refine alike_then (expect_alike _) fun _ => alike_then optional_semicolon_alike fun _ => ?_
    apply finish
    simp only [SourceProgram.bare, declared, inner]

end Parser

end SoftPlc
