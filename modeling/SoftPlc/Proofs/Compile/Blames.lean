import SoftPlc.Proofs.Compile.Inversion
import SoftPlc.Proofs.Language.Origins

set_option autoImplicit false

namespace SoftPlc.Compile

def Blames {α : Type} (allowed : Option UInt16 → Span → Prop) (x : Except Fault α) : Prop :=
  ∀ f, x = .error f → f.kind ≠ .internalError ∧ allowed f.line f.span

def Among (spans : List Span) (line : Option UInt16) (span : Span) : Prop := line = none ∧ span ∈ spans

section
variable {α β : Type} {allowed : Option UInt16 → Span → Prop}

theorem blames_ok (a : α) : Blames allowed (.ok a) := nofun

theorem blames_pure (a : α) : Blames allowed (pure a) := nofun

theorem blames_bind {x : Except Fault α} {next : α → Except Fault β} (first : Blames allowed x)
    (second : ∀ a, x = .ok a → Blames allowed (next a)) : Blames allowed (x >>= next) := by
  intro f refused
  cases answer : x with
  | error g =>
    rw [answer] at refused
    cases refused
    exact first f answer
  | ok a =>
    rw [answer] at refused
    exact second a answer f refused

theorem blames_if {p : Prop} [Decidable p] {yes no : Except Fault α} (holds : p → Blames allowed yes)
    (fails : ¬ p → Blames allowed no) : Blames allowed (if p then yes else no) := by
  by_cases h : p
  · rw [if_pos h]
    exact holds h
  · rw [if_neg h]
    exact fails h

theorem blames_weaken {x : Except Fault α} {more : Option UInt16 → Span → Prop} (blames : Blames allowed x)
    (less : ∀ line span, allowed line span → more line span) : Blames more x := fun f refused =>
  ⟨(blames f refused).1, less _ _ (blames f refused).2⟩

theorem blames_fail {kind : Fault.Kind} (span : Span) (message : String) (kind_ : kind ≠ .internalError)
    (here : allowed none span) : Blames allowed (failAt kind span message : Except Fault α) := by
  intro f refused
  cases refused
  exact ⟨kind_, here⟩

theorem blames_unless {refused : Prop} [Decidable refused] {kind : Fault.Kind} {span : Span} {message : String}
    {rest : Unit → Except Fault α} (kind_ : kind ≠ .internalError) (here : allowed none span)
    (later : ¬ refused → Blames allowed (rest ())) :
    Blames allowed (if refused then (failAt kind span message : Except Fault Unit) >>= rest else rest ()) :=
  blames_if (fun _ => blames_bind (blames_fail span message kind_ here) nofun) later

end

theorem among_own (span : Span) : Among [span] none span := ⟨rfl, List.mem_singleton_self span⟩

theorem blames_more {α : Type} {x : Except Fault α} (spans more : List Span) (blames : Blames (Among spans) x)
    (inside : spans ⊆ more) : Blames (Among more) x :=
  blames_weaken blames fun _ _ here => ⟨here.1, inside here.2⟩

theorem blames_first {α : Type} {x : Except Fault α} (span : Span) (spans : List Span) (blames : Blames (Among [span]) x) :
    Blames (Among (span :: spans)) x :=
  blames_more [span] _ blames fun s member => by simp [List.mem_singleton.mp member]

theorem literal_blames (n : Int) (span : Span) : Blames (Among [span]) (integerLiteral n span) := by
  unfold integerLiteral
  split
  · exact blames_ok _
  · exact blames_fail span _ nofun (among_own span)

theorem lookup_blames (vars : List Variable) (name : String) (span : Span) : Blames (Among [span]) (lookup vars name span) := by
  unfold lookup
  split
  · exact blames_ok _
  · exact blames_fail span _ nofun (among_own span)

theorem check_operands_blames (op : BinaryOp) (t : DataType) (span : Span) :
    Blames (Among [span]) (checkOperands op t span) := by
  have refuses {kind : Fault.Kind} (message : String) (other : kind ≠ .internalError) :
      Blames (Among [span]) (failAt kind span message : Except Fault Unit) := blames_fail span message other (among_own span)
  cases op with
  | add | subtract | multiply | divide | and | or | xor =>
    exact blames_if (fun _ => refuses _ nofun) fun _ => blames_ok _
  | modulo | shiftLeft | shiftRight => exact blames_if (fun _ => blames_ok _) fun _ => refuses _ nofun
  | _ => exact blames_ok _

theorem binary_blames (span : Span) (op : BinaryOp) (left right : Fragment) :
    Blames (Among [span]) (binary span op left right) := by
  unfold binary
  refine blames_unless nofun (among_own span) fun _ => ?_
  exact blames_bind (check_operands_blames op _ span) fun _ _ => blames_pure _

theorem negation_blames (span : Span) (f : Fragment) : Blames (Among [span]) (negation span f) :=
  blames_if (fun _ => blames_fail span _ nofun (among_own span)) fun _ => blames_ok _

theorem complement_blames (span : Span) (f : Fragment) : Blames (Among [span]) (complement span f) :=
  blames_if (fun _ => blames_fail span _ nofun (among_own span)) fun _ => blames_ok _

theorem signature_blames (span : Span) (name : String) (count : Nat) :
    Blames (Among [span]) (signatureFor span name count) := by
  unfold signatureFor
  split
  · exact blames_fail span _ nofun (among_own span)
  · exact blames_if (fun _ => blames_fail span _ nofun (among_own span)) fun _ => blames_ok _

theorem call_blames (span : Span) (signature : Signature) (args : List Fragment) (count : args.length = signature.arity) :
    Blames (Among [span]) (call span signature args) := by
  have refuses {kind : Fault.Kind} (message : String) (other : kind ≠ .internalError) :
      Blames (Among [span]) (failAt kind span message : Except Fault Fragment) :=
    blames_fail span message other (among_own span)
  cases signature with
  | numeric make arity => exact blames_if (fun _ => refuses _ nofun) fun _ => blames_ok _
  | select =>
    match args, count with
    | [choice, a, b], _ =>
      exact blames_if (fun _ => refuses _ nofun) fun _ => blames_if (fun _ => refuses _ nofun) fun _ => blames_ok _
  | real g | integer g =>
    match args, count with
    | [a], _ => exact blames_if (fun _ => refuses _ nofun) fun _ => blames_ok _
  | convert t =>
    match args, count with
    | [a], _ => exact blames_ok _

section
variable (vars : List Variable)

mutual
theorem expression_blames (e : Expression) : Blames (Among e.spans) (expression vars e) := by
  match e with
  | .integer span n =>
    rw [expression]
    exact blames_bind (literal_blames n span) fun _ _ => blames_pure _
  | .real span x => exact blames_ok _
  | .bool span b => exact blames_ok _
  | .named span name =>
    rw [expression]
    exact blames_bind (lookup_blames vars name span) fun _ _ => blames_pure _
  | .negation span e =>
    have operand := blames_more _ (span :: e.spans) (expression_blames e) (List.subset_cons_self _ _)
    have refuses (f : Fragment) := blames_first span e.spans (negation_blames span f)
    cases e with
    | integer inner n =>
      rw [expression]
      exact blames_bind (blames_first span [inner] (literal_blames (-n) span)) fun _ _ => blames_pure _
    | real inner x => exact blames_ok _
    | _ =>
      simp only [expression] at operand ⊢
      exact blames_bind operand fun f _ => refuses f
  | .complement span e =>
    have operand := blames_more _ (span :: e.spans) (expression_blames e) (List.subset_cons_self _ _)
    rw [expression]
    exact blames_bind operand fun f _ => blames_first span e.spans (complement_blames span f)
  | .binary span op l r =>
    have spans : (Expression.binary span op l r).spans = span :: (l.spans ++ r.spans) := by
      simp [Expression.spans, Expression.parts, Expression.span]
    rw [expression, spans]
    refine blames_bind (blames_more _ _ (expression_blames l) fun x member => by simp [member]) fun left _ => ?_
    refine blames_bind (blames_more _ _ (expression_blames r) fun x member => by simp [member]) fun right _ => ?_
    exact blames_first span _ (binary_blames span op left right)
  | .call span name args =>
    have spans : (Expression.call span name args).spans = span :: Expression.spansOf args := rfl
    rw [expression, spans]
    refine blames_bind (blames_first span _ (signature_blames span name args.length)) fun signature found => ?_
    refine blames_bind (blames_more _ _ (expressions_blame args) (List.subset_cons_self _ _)) fun fs compiled => ?_
    refine blames_first span _ (call_blames span signature fs ?_)
    rw [expressions_length vars args fs compiled]
    exact (signature_ok span name args.length signature found).2

theorem expressions_blame (es : List Expression) : Blames (Among (Expression.spansOf es)) (expressions vars es) := by
  match es with
  | [] => exact blames_ok _
  | e :: rest =>
    rw [expressions, Expression.spans_of_cons]
    refine blames_bind (blames_more _ _ (expression_blames e) (List.subset_append_left _ _)) fun first _ => ?_
    refine blames_bind (blames_more _ _ (expressions_blame rest) (List.subset_append_right _ _)) fun others _ => ?_
    exact blames_pure _
end

theorem constant_blames (e : Expression) : Blames (Among e.spans) (constant e) := by
  have own (e : Expression) :
      Blames (Among e.spans) (failAt .syntaxError e.span "INITIALIZER MUST BE A LITERAL" : Except Fault Value) :=
    blames_fail _ _ nofun ⟨rfl, Expression.span_mem e⟩
  cases e with
  | integer span n => exact literal_blames n span
  | real span x => exact blames_ok _
  | bool span b => exact blames_ok _
  | negation span e =>
    cases e with
    | integer inner n => exact blames_first span [inner] (literal_blames (-n) span)
    | real inner x => exact blames_ok _
    | _ => exact own (.negation span _)
  | _ => exact own _

theorem initial_value_blames (d : Declaration) : Blames (Among d.spans) (initialValue d) := by
  obtain ⟨line, span, name, t, variableClass, exported, initializer⟩ := d
  cases initializer with
  | none =>
    exact blames_if (fun _ => blames_fail _ _ nofun ⟨rfl, List.mem_cons_self⟩) fun _ => blames_ok _
  | some e =>
    have inside : e.spans ⊆ span :: Expression.spansOf [e] := fun s member => by simp [member]
    simp only [initialValue]
    refine blames_bind (blames_more _ _ (constant_blames e) inside) fun v _ => ?_
    refine blames_unless nofun ⟨rfl, inside ?_⟩ fun _ => blames_pure _
    exact Expression.span_mem e

theorem declare_blames (before : List Variable) (d : Declaration) : Blames (Among d.spans) (declare before d) := by
  have own : Among d.spans none d.span := ⟨rfl, List.mem_cons_self⟩
  unfold declare
  refine blames_unless nofun own fun _ => blames_unless nofun own fun _ => ?_
  exact blames_bind (initial_value_blames d) fun _ _ => blames_pure _

theorem condition_blames (e : Expression) : Blames (Among e.spans) (condition vars e) := by
  refine blames_bind (expression_blames vars e) fun f _ => ?_
  exact blames_unless nofun ⟨rfl, Expression.span_mem e⟩ fun _ => blames_pure _

theorem selector_blames (e : Expression) : Blames (Among e.spans) (selector vars e) := by
  refine blames_bind (expression_blames vars e) fun f _ => ?_
  exact blames_unless nofun ⟨rfl, Expression.span_mem e⟩ fun _ => blames_pure _

theorem bound_blames (t : DataType) (e : Expression) : Blames (Among e.spans) (bound vars t e) := by
  refine blames_bind (expression_blames vars e) fun f _ => ?_
  exact blames_unless nofun ⟨rfl, Expression.span_mem e⟩ fun _ => blames_pure _

theorem target_blames (name : String) (span : Span) : Blames (Among [span]) (target vars name span) := by
  refine blames_bind (lookup_blames vars name span) fun found _ => ?_
  exact blames_unless nofun (among_own span) fun _ => blames_pure _

theorem assignment_blames (span : Span) (name : String) (value : Expression) :
    Blames (Among (span :: value.spans)) (assignment vars span name value) := by
  have inside : value.spans ⊆ span :: value.spans := List.subset_cons_self _ _
  refine blames_bind (blames_first span _ (target_blames vars name span)) fun found _ => ?_
  refine blames_bind (blames_more _ _ (expression_blames vars value) inside) fun f _ => ?_
  exact blames_unless nofun ⟨rfl, inside (Expression.span_mem value)⟩ fun _ => blames_pure _

theorem spans_of_mem (e : Expression) (es : List Expression) (listed : e ∈ es) : e.spans ⊆ Expression.spansOf es := by
  induction es with
  | nil => cases listed
  | cons first rest ih =>
    rw [Expression.spans_of_cons]
    rcases List.mem_cons.mp listed with rfl | later
    · exact List.subset_append_left _ _
    · exact fun span member => List.mem_append_right _ (ih later member)

theorem counting_blames (span : Span) (name : String) (first last : Expression) (step : Option Expression) :
    Blames (Among (span :: Expression.spansOf (first :: last :: step.toList)))
      (counting vars span name first last step) := by
  have inside (t : DataType) (e : Expression) (listed : e ∈ first :: last :: step.toList) :
      Blames (Among (span :: Expression.spansOf (first :: last :: step.toList))) (bound vars t e) :=
    blames_more _ _ (bound_blames vars t e) fun s member => List.mem_cons_of_mem _ (spans_of_mem e _ listed member)
  refine blames_bind (blames_first span _ (target_blames vars name span)) fun found _ => ?_
  refine blames_unless nofun ⟨rfl, List.mem_cons_self⟩ fun _ => ?_
  refine blames_bind (inside _ first (by simp)) fun _ _ => blames_bind (inside _ last (by simp)) fun _ _ => ?_
  cases step with
  | none => exact blames_ok _
  | some by_ => exact blames_bind (inside _ by_ (by simp)) fun _ _ => blames_pure _

theorem label_value_blames (n : Int) (t : DataType) (span : Span) : Blames (Among [span]) (labelValue n t span) := by
  have refuses {kind : Fault.Kind} (message : String) (other : kind ≠ .internalError) :
      Blames (Among [span]) (failAt kind span message : Except Fault Value) := blames_fail span message other (among_own span)
  cases t <;> exact blames_if (fun _ => blames_ok _) fun _ => refuses _ nofun

section
variable (allowed : UInt16 → Span → Prop)

def InLine (line : UInt16) (inner : Option UInt16) (span : Span) : Prop := allowed (inner.getD line) span

def Placed (line : Option UInt16) (span : Span) : Prop := ∃ l, line = some l ∧ allowed l span

variable {α : Type} {x : Except Fault α} (line : UInt16)

theorem with_line_blames (blames : Blames (InLine allowed line) x) : Blames (Placed allowed) (withLine line x) := by
  intro f refused
  cases answer : x with
  | ok a =>
    rw [answer] at refused
    cases refused
  | error g =>
    rw [answer] at refused
    cases refused
    obtain ⟨kind, here⟩ := blames g answer
    refine ⟨kind, g.line.getD line, ?_, here⟩
    cases given : g.line <;> simp [Fault.atLine, given]

theorem placed_in_line (blames : Blames (Placed allowed) x) : Blames (InLine allowed line) x := by
  refine blames_weaken blames fun given span here => ?_
  obtain ⟨l, rfl, place⟩ := here
  exact place

theorem among_in_line (spans : List Span) (blames : Blames (Among spans) x) (here : ∀ span ∈ spans, allowed line span) :
    Blames (InLine allowed line) x := by
  refine blames_weaken blames fun given span inside => ?_
  obtain ⟨rfl, member⟩ := inside
  exact here span member

theorem room_blames (last : UInt16) (stop : Nat) (here : allowed last .unknown) :
    Blames (InLine allowed line) (checkRoom last stop) := by
  refine blames_if (fun _ => blames_ok _) fun _ f refused => ?_
  cases refused
  exact ⟨nofun, here⟩

theorem loops_blames (loops : Nat) (here : allowed line .unknown) : Blames (InLine allowed line) (checkLoops loops) := by
  refine blames_if (fun _ => blames_ok _) fun _ f refused => ?_
  cases refused
  exact ⟨nofun, here⟩

def Allows (s : Statement) : Prop := allowed s.line .unknown ∧ ∀ span ∈ s.spans, allowed s.line span

open Statement

mutual
theorem last_line_allowed (s : Statement) (allows : ∀ inner ∈ s.nested, Allows allowed inner) :
    allowed (lastLine s) .unknown := by
  have here := (allows s (nested_self s)).1
  match s with
  | .assign .. | .exit .. | .leave .. => exact here
  | .choose line branches otherwise =>
    simp only [nested, List.forall_mem_cons, List.forall_mem_append] at allows
    obtain ⟨_, inside, last⟩ := allows
    exact last_line_of_allowed _ otherwise (last_line_branches_allowed line branches here inside) last
  | .select line e arms otherwise =>
    simp only [nested, List.forall_mem_cons, List.forall_mem_append] at allows
    obtain ⟨_, inside, first⟩ := allows
    exact last_line_arms_allowed _ arms (last_line_of_allowed line otherwise here first) inside
  | .count line _ _ _ _ _ body | .while line _ body | .repeat line body _ =>
    exact last_line_of_allowed line body here fun inner member => allows inner (List.mem_cons_of_mem _ member)

theorem last_line_of_allowed (line : UInt16) (body : List Statement) (here : allowed line .unknown)
    (allows : ∀ inner ∈ nestedOf body, Allows allowed inner) : allowed (lastLineOf line body) .unknown := by
  match body with
  | [] => exact here
  | s :: rest =>
    rw [nestedOf, List.forall_mem_append] at allows
    exact last_line_of_allowed _ rest (last_line_allowed s allows.1) allows.2

theorem last_line_branches_allowed (line : UInt16) (branches : List (Expression × List Statement))
    (here : allowed line .unknown) (allows : ∀ inner ∈ nestedOfBranches branches, Allows allowed inner) :
    allowed (lastLineOfBranches line branches) .unknown := by
  match branches with
  | [] => exact here
  | (_, body) :: rest =>
    rw [nestedOfBranches, List.forall_mem_append] at allows
    exact last_line_branches_allowed _ rest (last_line_of_allowed line body here allows.1) allows.2

theorem last_line_arms_allowed (line : UInt16) (arms : List (List CaseLabel × List Statement))
    (here : allowed line .unknown) (allows : ∀ inner ∈ nestedOfArms arms, Allows allowed inner) :
    allowed (lastLineOfArms line arms) .unknown := by
  match arms with
  | [] => exact here
  | (_, body) :: rest =>
    rw [nestedOfArms, List.forall_mem_append] at allows
    exact last_line_arms_allowed _ rest (last_line_of_allowed line body here allows.1) allows.2
end

theorem label_test_blames (span : Span) (t : DataType) (base : Nat) (label : CaseLabel) (here : allowed line .unknown)
    (place : allowed line span) : Blames (InLine allowed line) (labelTest line span t base label) := by
  have room (stop : Nat) := room_blames allowed line line stop here
  have value (n : Int) := among_in_line allowed line [span] (label_value_blames n t span) (by simpa using place)
  refine blames_bind (room _) fun _ _ => ?_
  cases label with
  | single n => exact blames_bind (value n) fun _ _ => blames_bind (room _) fun _ _ => blames_pure _
  | range low high =>
    refine blames_bind (value low) fun _ _ => blames_bind (room _) fun _ _ => ?_
    exact blames_bind (value high) fun _ _ => blames_bind (room _) fun _ _ => blames_pure _

theorem label_tests_blames (span : Span) (t : DataType) (base : Nat) (labels : List CaseLabel)
    (here : allowed line .unknown) (place : allowed line span) :
    Blames (InLine allowed line) (labelTests line span t base labels) := by
  induction labels generalizing base with
  | nil => exact blames_ok _
  | cons label rest ih =>
    refine blames_bind (label_test_blames allowed line span t base label here place) fun _ _ => ?_
    exact blames_bind (ih _) fun _ _ => blames_pure _

theorem arm_tests_blames (span : Span) (t : DataType) (base : Nat) (arms : List (List CaseLabel × List Statement))
    (here : allowed line .unknown) (place : allowed line span) :
    Blames (InLine allowed line) (armTests line span t base arms) := by
  induction arms generalizing base with
  | nil => exact blames_ok _
  | cons arm rest ih =>
    refine blames_bind (label_tests_blames allowed line span t base arm.1 here place) fun _ _ => ?_
    exact blames_bind (ih _) fun _ _ => blames_pure _

mutual
theorem statement_blames (loops base : Nat) (s : Statement) (allows : ∀ inner ∈ s.nested, Allows allowed inner) :
    Blames (Placed allowed) (statement vars loops base s) := by
  obtain ⟨here, places⟩ := allows s (nested_self s)
  have room (stop : Nat) := room_blames allowed s.line s.line stop here
  have known (spans : List Span) {α : Type} {x : Except Fault α} (blames : Blames (Among spans) x)
      (inside : spans ⊆ s.spans) : Blames (InLine allowed s.line) x :=
    among_in_line allowed s.line spans blames fun span member => places span (inside member)
  have placed {α : Type} {x : Except Fault α} (blames : Blames (InLine allowed s.line) x) :=
    with_line_blames allowed s.line blames
  match s with
  | .assign line span name value =>
    rw [statement]
    refine placed (blames_bind (known _ (assignment_blames vars span name value) ?_) fun _ _ => ?_)
    · simp [spans, own, operands]
    · exact blames_bind (room _) fun _ _ => blames_pure _
  | .choose line branches otherwise =>
    simp only [nested, List.forall_mem_cons, List.forall_mem_append] at allows
    rw [statement]
    refine placed (choice_blames line line loops base _ branches here ?_ allows.2.1 fun base => ?_)
    · exact fun cond body member span inside => places span (spans_of_mem cond _ (List.mem_map_of_mem member) inside)
    · exact placed_in_line allowed line (block_blames loops base otherwise allows.2.2)
  | .select line e arms otherwise =>
    simp only [nested, List.forall_mem_cons, List.forall_mem_append] at allows
    obtain ⟨_, inside, first⟩ := allows
    have behind := last_line_of_allowed allowed line otherwise here first
    have place := places e.span (by simp [spans, own, operands, Expression.span_mem])
    rw [statement]
    refine placed (blames_bind (known _ (selector_blames vars e) (by simp [spans, own, operands])) fun f _ => ?_)
    refine blames_bind (room _) fun _ _ => ?_
    refine blames_bind (arm_tests_blames allowed line e.span f.dataType _ arms here place) fun _ _ => ?_
    refine blames_bind (room _) fun _ _ => ?_
    refine blames_bind (placed_in_line allowed line (block_blames loops _ otherwise first)) fun _ _ => ?_
    refine blames_bind (room_blames allowed line _ _ behind) fun _ _ => ?_
    exact blames_bind (arm_bodies_blames line _ loops _ arms behind inside) fun _ _ => blames_pure _
  | .count line span name first last step body =>
    have inside : ∀ inner ∈ nestedOf body, Allows allowed inner := fun inner member => allows inner (List.mem_cons_of_mem _ member)
    have behind := last_line_of_allowed allowed line body here inside
    rw [statement]
    refine placed (blames_bind (known _ (counting_blames vars span name first last step) ?_) fun c _ => ?_)
    · simp [spans, own, operands]
    refine blames_bind (room _) fun _ _ => blames_bind (loops_blames allowed line loops here) fun _ _ => ?_
    refine blames_bind (placed_in_line allowed line (block_blames (loops + 1) _ body inside)) fun _ _ => ?_
    exact blames_bind (room_blames allowed line _ _ behind) fun _ _ => blames_pure _
  | .while line cond body =>
    have inside : ∀ inner ∈ nestedOf body, Allows allowed inner := fun inner member => allows inner (List.mem_cons_of_mem _ member)
    have behind := last_line_of_allowed allowed line body here inside
    rw [statement]
    refine placed (blames_bind (known _ (condition_blames vars cond) (by simp [spans, own, operands])) fun _ _ => ?_)
    refine blames_bind (room _) fun _ _ => blames_bind (loops_blames allowed line loops here) fun _ _ => ?_
    refine blames_bind (placed_in_line allowed line (block_blames (loops + 1) _ body inside)) fun _ _ => ?_
    exact blames_bind (room_blames allowed line _ _ behind) fun _ _ => blames_pure _
  | .repeat line body cond =>
    have inside : ∀ inner ∈ nestedOf body, Allows allowed inner := fun inner member => allows inner (List.mem_cons_of_mem _ member)
    have behind := last_line_of_allowed allowed line body here inside
    rw [statement]
    refine placed (blames_bind (loops_blames allowed line loops here) fun _ _ => ?_)
    refine blames_bind (placed_in_line allowed line (block_blames (loops + 1) _ body inside)) fun _ _ => ?_
    refine blames_bind (known _ (condition_blames vars cond) (by simp [spans, own, operands])) fun _ _ => ?_
    exact blames_bind (room_blames allowed line _ _ behind) fun _ _ => blames_pure _
  | .exit line span =>
    rw [statement]
    refine placed (blames_unless nofun ?_ fun _ => blames_bind (room _) fun _ _ => blames_pure _)
    exact places span (by simp [spans, own])
  | .leave line =>
    rw [statement]
    exact placed (blames_bind (room _) fun _ _ => blames_pure _)

theorem block_blames (loops base : Nat) (body : List Statement) (allows : ∀ inner ∈ nestedOf body, Allows allowed inner) :
    Blames (Placed allowed) (block vars loops base body) := by
  match body with
  | [] => exact blames_ok _
  | s :: rest =>
    rw [nestedOf, List.forall_mem_append] at allows
    rw [block]
    refine blames_bind (statement_blames loops base s allows.1) fun _ _ => ?_
    exact blames_bind (block_blames loops _ rest allows.2) fun _ _ => blames_pure _

theorem choice_blames (line last : UInt16) (loops base : Nat) (elseCode : Nat → Except Fault (List Item))
    (branches : List (Expression × List Statement)) (here : allowed last .unknown)
    (places : ∀ cond body, (cond, body) ∈ branches → ∀ span ∈ cond.spans, allowed line span)
    (allows : ∀ inner ∈ nestedOfBranches branches, Allows allowed inner)
    (otherwise : ∀ base, Blames (InLine allowed line) (elseCode base)) :
    Blames (InLine allowed line) (choice vars loops base last elseCode branches) := by
  match branches with
  | [] => exact otherwise base
  | (cond, body) :: rest =>
    rw [nestedOfBranches, List.forall_mem_append] at allows
    have behind := last_line_of_allowed allowed last body here allows.1
    rw [choice]
    refine blames_bind (among_in_line allowed line _ (condition_blames vars cond) (places cond body List.mem_cons_self)) fun _ _ => ?_
    refine blames_bind (room_blames allowed line last _ here) fun _ _ => ?_
    refine blames_bind (placed_in_line allowed line (block_blames loops _ body allows.1)) fun _ _ => ?_
    refine blames_bind (room_blames allowed line _ _ behind) fun _ _ => ?_
    refine blames_bind (choice_blames line _ loops _ elseCode rest behind ?_ allows.2 otherwise) fun _ _ => blames_pure _
    exact fun other body' member => places other body' (List.mem_cons_of_mem _ member)

theorem arm_bodies_blames (line last : UInt16) (loops base : Nat) (arms : List (List CaseLabel × List Statement))
    (here : allowed last .unknown) (allows : ∀ inner ∈ nestedOfArms arms, Allows allowed inner) :
    Blames (InLine allowed line) (armBodies vars loops base last arms) := by
  match arms with
  | [] => exact blames_ok _
  | (labels, body) :: rest =>
    rw [nestedOfArms, List.forall_mem_append] at allows
    have behind := last_line_of_allowed allowed last body here allows.1
    rw [armBodies]
    refine blames_bind (room_blames allowed line last _ here) fun _ _ => ?_
    refine blames_bind (placed_in_line allowed line (block_blames loops _ body allows.1)) fun _ _ => ?_
    refine blames_bind (room_blames allowed line _ _ behind) fun _ _ => ?_
    exact blames_bind (arm_bodies_blames line _ loops _ rest behind allows.2) fun _ _ => blames_pure _
end

theorem declare_all_blames (before : List Variable) (ds : List Declaration)
    (places : ∀ d ∈ ds, ∀ span ∈ d.spans, allowed d.line span) : Blames (Placed allowed) (declareAll before ds) := by
  induction ds generalizing before with
  | nil => exact blames_ok _
  | cons d rest ih =>
    obtain ⟨here, later⟩ := List.forall_mem_cons.mp places
    have first := with_line_blames allowed d.line (among_in_line allowed d.line _ (declare_blames before d) here)
    exact blames_bind first fun v _ => ih (before ++ [v]) later

end

end

-- Without statements there is no line to blame, but room.
theorem program_blames (allowed : UInt16 → Span → Prop) (p : SourceProgram)
    (places : ∀ d ∈ p.declarations, ∀ span ∈ d.spans, allowed d.line span)
    (allows : ∀ s ∈ p.statements, Allows allowed s) : Blames (Placed allowed) p.compile := by
  refine blames_bind (declare_all_blames allowed [] p.declarations places) fun vars _ => ?_
  refine blames_bind (block_blames vars allowed 0 0 p.body allows) fun items compiled => ?_
  refine blames_bind ?_ fun _ _ => blames_pure _
  cases body : p.body with
  | nil =>
    rw [body] at compiled
    cases compiled
    exact blames_ok ()
  | cons s rest =>
    have inside : ∀ inner ∈ Statement.nestedOf (s :: rest), Allows allowed inner := body ▸ allows
    rw [Statement.nestedOf, List.forall_mem_append] at inside
    have last := last_line_of_allowed allowed _ rest (last_line_allowed allowed s inside.1) inside.2
    refine blames_if (fun _ => blames_ok ()) fun _ f refused => ?_
    cases refused
    exact ⟨nofun, _, rfl, last⟩

end SoftPlc.Compile
