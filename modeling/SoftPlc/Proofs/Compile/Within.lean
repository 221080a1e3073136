import SoftPlc.Proofs.Compile.Expressions
import SoftPlc.Proofs.Language.Parts

set_option autoImplicit false

namespace SoftPlc.Compile

theorem infix_append {α : Type} (front part whole back : List α) (inside : part <:+: whole) :
    part <:+: front ++ whole ++ back :=
  inside.trans (List.infix_append front whole back)

section
variable (part : List Instruction) (i : Instruction) (member : i ∈ part) (operator : ∀ v, i ≠ .push v)
include member operator

theorem infix_cast (f : Fragment) (t : DataType) (inside : part <:+: f.code) : part <:+: (f.castTo t).code := by
  unfold Fragment.castTo
  split
  · exact inside
  · split
    · rename_i v code
      rw [code] at inside
      exact absurd (List.mem_singleton.mp (inside.subset member)) (operator v)
    · exact inside.trans (List.prefix_append _ _).isInfix

theorem infix_call (name : String) (fs : List Fragment) (f g : Fragment) (form : CallForm name fs f) (argument : g ∈ fs)
    (inside : part <:+: g.code) : part <:+: f.code := by
  have among (all : List Fragment) (h : Fragment) (listed : h ∈ all) (called : Builtin) (t : DataType)
      (holds : part <:+: h.code) : part <:+: (callFragment all called t).code := by
    have one : h.code <:+: (all.map (·.code)).flatten := List.infix_of_mem_flatten (List.mem_map_of_mem listed)
    exact (holds.trans one).trans (List.prefix_append _ _).isInfix
  have cast (t : DataType) := infix_cast part i member operator g t inside
  cases form with
  | numeric make fs found => exact among _ _ (List.mem_map_of_mem argument) _ _ (cast _)
  | select choice a b found bool =>
    simp only [List.mem_cons, List.not_mem_nil, or_false] at argument
    rcases argument with rfl | rfl | rfl
    · exact among _ g List.mem_cons_self _ _ inside
    · exact among _ (g.castTo (g.dataType.promote b.dataType)) (by simp) _ _ (cast _)
    · exact among _ (g.castTo (a.dataType.promote g.dataType)) (by simp) _ _ (cast _)
  | real h a found =>
    cases List.mem_singleton.mp argument
    exact among _ _ (List.mem_singleton.mpr rfl) _ _ (cast .real)
  | convert t a found =>
    cases List.mem_singleton.mp argument
    exact cast t

end

variable (vars : List Variable)

section
variable (span : Span) (op : BinaryOp) (left right : Expression)

theorem binary_expression_ok (f : Fragment) (compiled : expression vars (.binary span op left right) = .ok f) :
    ∃ l r, expression vars left = .ok l ∧ expression vars right = .ok r ∧ binary span op l r = .ok f := by
  simp only [expression, bind_ok] at compiled
  obtain ⟨l, leftOk, r, rightOk, done⟩ := compiled
  exact ⟨l, r, leftOk, rightOk, done⟩

theorem operator_mem (l r f : Fragment) (compiled : binary span op l r = .ok f) :
    Instruction.binary op (operatorType op l.dataType r.dataType) ∈ f.code := by
  rw [(binary_ok span op l r f compiled).2.2.1]
  simp

mutual
theorem operator_within (e : Expression) (f : Fragment) (compiled : expression vars e = .ok f)
    (member : .binary span op left right ∈ e.parts) :
    ∃ g, expression vars (.binary span op left right) = .ok g ∧ g.code <:+: f.code := by
  cases e with
  | integer _ _ | real _ _ | bool _ _ | named _ _ =>
    simp [Expression.parts] at member
  | negation s e =>
    simp only [Expression.parts, List.mem_cons, reduceCtorEq, false_or] at member
    rcases negated_ok vars [] s e f compiled with ⟨v, value, rfl⟩ | ⟨operand, operandOk, done, _⟩
    · -- a literal has no operator in it
      cases e with
      | integer _ _ | real _ _ => simp [Expression.parts] at member
      | _ =>
        rw [expression, bind_ok] at compiled
        · obtain ⟨operand, _, done⟩ := compiled
          have code := congrArg Fragment.code (negation_ok s operand _ done).2
          have last := congrArg List.getLast? code
          simp [Fragment.literal] at last
        all_goals simp
    · obtain ⟨g, gOk, inside⟩ := operator_within e operand operandOk member
      rw [(negation_ok s operand f done).2]
      exact ⟨g, gOk, inside.trans (List.prefix_append _ _).isInfix⟩
  | complement s e =>
    simp only [Expression.parts, List.mem_cons, reduceCtorEq, false_or] at member
    simp only [expression, bind_ok] at compiled
    obtain ⟨operand, operandOk, done⟩ := compiled
    obtain ⟨g, gOk, inside⟩ := operator_within e operand operandOk member
    rw [(complement_ok s operand f done).2]
    exact ⟨g, gOk, inside.trans (List.prefix_append _ _).isInfix⟩
  | binary s o a b =>
    obtain ⟨l, r, leftOk, rightOk, done⟩ := binary_expression_ok vars s o a b f compiled
    rw [Expression.parts, List.mem_cons, List.mem_append] at member
    rcases member with same | first | second
    · cases same
      exact ⟨f, compiled, List.infix_rfl⟩
    · obtain ⟨g, gOk, inside⟩ := operator_within a l leftOk first
      obtain ⟨gl, gr, _, _, made⟩ := binary_expression_ok vars span op left right g gOk
      rw [(binary_ok s o l r f done).2.2.1, List.append_assoc]
      have kept := infix_cast g.code _ (operator_mem span op gl gr g made) (by simp) l
        (operatorType o l.dataType r.dataType) inside
      exact ⟨g, gOk, kept.trans (List.prefix_append _ _).isInfix⟩
    · obtain ⟨g, gOk, inside⟩ := operator_within b r rightOk second
      obtain ⟨gl, gr, _, _, made⟩ := binary_expression_ok vars span op left right g gOk
      rw [(binary_ok s o l r f done).2.2.1]
      have kept := infix_cast g.code _ (operator_mem span op gl gr g made) (by simp) r
        (operatorType o l.dataType r.dataType) inside
      exact ⟨g, gOk, infix_append _ _ _ _ kept⟩
  | call s name args =>
    simp only [Expression.parts, List.mem_cons, reduceCtorEq, false_or] at member
    simp only [expression, bind_ok] at compiled
    obtain ⟨signature, signatureOk, fs, fsOk, done⟩ := compiled
    obtain ⟨found, count⟩ := signature_ok s name args.length signature signatureOk
    obtain ⟨g, h, gOk, listed, inside⟩ := operator_within_some args fs fsOk member
    obtain ⟨gl, gr, _, _, made⟩ := binary_expression_ok vars span op left right g gOk
    have form := call_form s name signature fs f found ((expressions_length vars args fs fsOk).trans count) done
    exact ⟨g, gOk, infix_call g.code _ (operator_mem span op gl gr g made) (by simp) name fs f h form listed inside⟩

theorem operator_within_some (args : List Expression) (fs : List Fragment) (compiled : expressions vars args = .ok fs)
    (member : .binary span op left right ∈ Expression.partsOf args) :
    ∃ g f, expression vars (.binary span op left right) = .ok g ∧ f ∈ fs ∧ g.code <:+: f.code := by
  cases args with
  | nil => simp [Expression.partsOf] at member
  | cons e rest =>
    obtain ⟨first, others, firstOk, othersOk, rfl⟩ := expressions_cons_ok vars e rest fs compiled
    rw [Expression.partsOf, List.mem_append] at member
    rcases member with here | there
    · obtain ⟨g, gOk, inside⟩ := operator_within e first firstOk here
      exact ⟨g, first, gOk, List.mem_cons_self, inside⟩
    · obtain ⟨g, f, gOk, listed, inside⟩ := operator_within_some rest others othersOk there
      exact ⟨g, f, gOk, List.mem_cons_of_mem _ listed, inside⟩
end

end

-- Code that lies in the inner items lies in the outer ones, whatever has become of the EXITs there.
def Inside (inner outer : List Item) : Prop := ∀ part, ops part <:+: inner → ops part <:+: outer

theorem inside_trans (inner items outer : List Item) (first : Inside inner items) (second : Inside items outer) :
    Inside inner outer :=
  fun part held => second part (first part held)

theorem infix_inside (inner outer : List Item) (held : inner <:+: outer) : Inside inner outer :=
  fun _ part => part.trans held

theorem inside_leave (items : List Item) (exit : Nat) : Inside items (items.map (·.leaveTo exit)) := by
  intro part held
  have moved := held.map (·.leaveTo exit)
  rwa [ops, List.map_map] at moved

def Within (inner : Statement) (items : List Item) : Prop :=
  ∃ loops base own, statement vars loops base inner = .ok own ∧ Inside own items

theorem within_inside (inner : Statement) (items outer : List Item) (within : Within vars inner items)
    (inside : Inside items outer) : Within vars inner outer := by
  obtain ⟨loops, base, own, compiled, held⟩ := within
  exact ⟨loops, base, own, compiled, inside_trans own items outer held inside⟩

theorem infix_within (inner : Statement) (items outer : List Item) (within : Within vars inner items)
    (held : items <:+: outer) : Within vars inner outer :=
  within_inside vars inner items outer within (infix_inside items outer held)

theorem infix_arm (base : Nat) (f : Fragment) (tests : List (List LabelTest)) (elseCode : List Item)
    (bodies : List (List Item)) (body : List Item) (listed : body ∈ bodies) :
    body <:+: caseCode base f tests elseCode bodies := by
  let stop := base + f.code.length + total (tests.map fun arm => testsLength (arm.map (·.label))) +
    elseCode.length + 2 + total (bodies.map (·.length + 2))
  have arm : body <:+: (bodies.map fun body => [.op .discard] ++ body ++ [.op (.jump stop)]).flatten :=
    (List.infix_append _ _ _).trans (List.infix_of_mem_flatten (List.mem_map_of_mem listed))
  exact arm.trans (List.suffix_append _ _).isInfix

theorem infix_otherwise (base : Nat) (f : Fragment) (tests : List (List LabelTest)) (elseCode : List Item)
    (bodies : List (List Item)) : elseCode <:+: caseCode base f tests elseCode bodies := by
  rw [caseCode, List.append_assoc]
  exact List.infix_append _ _ _

mutual
theorem nested_within (loops base : Nat) (s : Statement) (items : List Item)
    (compiled : statement vars loops base s = .ok items) (inner : Statement) (member : inner ∈ s.nested) :
    Within vars inner items := by
  cases s with
  | assign _ _ _ _ | exit _ _ | leave _ =>
    cases List.mem_singleton.mp member
    exact ⟨loops, base, items, compiled, fun _ held => held⟩
  | choose line branches otherwise =>
    rcases List.mem_cons.mp member with rfl | deeper
    · exact ⟨loops, base, items, compiled, fun _ held => held⟩
    · have made := choose_statement_ok vars loops base line branches otherwise items compiled
      obtain ⟨chosen, elseAt, elseCode, elseOk, held⟩ := nested_within_branches loops base line _ branches items made
      rcases List.mem_append.mp deeper with branch | other
      · exact chosen inner branch
      · have within := nested_within_block loops elseAt otherwise elseCode elseOk inner other
        exact infix_within vars inner elseCode items within held
  | select line e arms otherwise =>
    rcases List.mem_cons.mp member with rfl | deeper
    · exact ⟨loops, base, items, compiled, fun _ held => held⟩
    · obtain ⟨f, tests, elseCode, bodies, elseAt, _, _, _, elseOk, bodiesOk, rfl⟩ :=
        select_statement_ok vars loops base line e arms otherwise items compiled
      rcases List.mem_append.mp deeper with arm | other
      · obtain ⟨body, listed, within⟩ := nested_within_arms loops _ _ arms bodies bodiesOk inner arm
        exact infix_within vars inner body _ within (infix_arm base f tests elseCode bodies body listed)
      · have within := nested_within_block loops elseAt otherwise elseCode elseOk inner other
        exact infix_within vars inner elseCode _ within (infix_otherwise base f tests elseCode bodies)
  | count line span name first last step body =>
    rcases List.mem_cons.mp member with rfl | deeper
    · exact ⟨loops, base, items, compiled, fun _ held => held⟩
    · obtain ⟨c, code, top, bodyAt, exit, _, _, _, codeOk, _, rfl⟩ :=
        count_statement_ok vars loops base line span name first last step body items compiled
      have within := within_inside vars inner code _
        (nested_within_block (loops + 1) bodyAt body code codeOk inner deeper) (inside_leave code exit)
      exact infix_within vars inner _ _ within (List.infix_append _ _ _)
  | «while» line cond body =>
    rcases List.mem_cons.mp member with rfl | deeper
    · exact ⟨loops, base, items, compiled, fun _ held => held⟩
    · obtain ⟨test, code, exit, _, codeOk, _, rfl⟩ := while_statement_ok vars loops base line cond body items compiled
      have within := within_inside vars inner code _
        (nested_within_block (loops + 1) _ body code codeOk inner deeper) (inside_leave code exit)
      exact infix_within vars inner _ _ within (List.infix_append _ _ _)
  | «repeat» line body cond =>
    rcases List.mem_cons.mp member with rfl | deeper
    · exact ⟨loops, base, items, compiled, fun _ held => held⟩
    · obtain ⟨code, test, exit, codeOk, _, _, rfl⟩ := repeat_statement_ok vars loops base line body cond items compiled
      have within := within_inside vars inner code _
        (nested_within_block (loops + 1) base body code codeOk inner deeper) (inside_leave code exit)
      rw [List.append_assoc]
      exact infix_within vars inner _ _ within (List.prefix_append _ _).isInfix

theorem nested_within_block (loops base : Nat) (body : List Statement) (items : List Item)
    (compiled : block vars loops base body = .ok items) (inner : Statement) (member : inner ∈ Statement.nestedOf body) :
    Within vars inner items := by
  cases body with
  | nil => simp [Statement.nestedOf] at member
  | cons s rest =>
    obtain ⟨first, others, firstOk, othersOk, rfl⟩ := block_cons_ok vars loops base s rest items compiled
    rcases List.mem_append.mp member with here | there
    · exact infix_within vars inner first _ (nested_within loops base s first firstOk inner here)
        (List.prefix_append _ _).isInfix
    · exact infix_within vars inner others _ (nested_within_block loops _ rest others othersOk inner there)
        (List.suffix_append _ _).isInfix

theorem nested_within_branches (loops base : Nat) (line : UInt16) (otherwise : Nat → Except Fault (List Item))
    (branches : List (Expression × List Statement)) (items : List Item)
    (compiled : choice vars loops base line otherwise branches = .ok items) :
    (∀ inner ∈ Statement.nestedOfBranches branches, Within vars inner items) ∧
      ∃ elseAt elseCode, otherwise elseAt = .ok elseCode ∧ elseCode <:+: items := by
  cases branches with
  | nil => exact ⟨by simp [Statement.nestedOfBranches], base, items, compiled, List.infix_rfl⟩
  | cons branch rest =>
    obtain ⟨cond, body⟩ := branch
    obtain ⟨test, code, others, next, _, codeOk, _, othersOk, rfl⟩ :=
      choice_cons_ok vars loops base line otherwise cond body rest items compiled
    obtain ⟨chosen, elseAt, elseCode, elseOk, held⟩ := nested_within_branches loops next _ otherwise rest others othersOk
    refine ⟨?_, elseAt, elseCode, elseOk, held.trans (List.suffix_append _ _).isInfix⟩
    intro inner member
    rcases List.mem_append.mp member with here | there
    · rw [List.append_assoc]
      exact infix_within vars inner code _ (nested_within_block loops _ body code codeOk inner here)
        (List.infix_append _ _ _)
    · exact infix_within vars inner others _ (chosen inner there) (List.suffix_append _ _).isInfix

theorem nested_within_arms (loops base : Nat) (line : UInt16) (arms : List (List CaseLabel × List Statement))
    (bodies : List (List Item)) (compiled : armBodies vars loops base line arms = .ok bodies) (inner : Statement)
    (member : inner ∈ Statement.nestedOfArms arms) : ∃ body ∈ bodies, Within vars inner body := by
  cases arms with
  | nil => simp [Statement.nestedOfArms] at member
  | cons arm rest =>
    obtain ⟨labels, body⟩ := arm
    obtain ⟨code, others, codeOk, othersOk, rfl⟩ :=
      arm_bodies_cons_ok vars loops base line labels body rest bodies compiled
    rcases List.mem_append.mp member with here | there
    · exact ⟨code, List.mem_cons_self, nested_within_block loops _ body code codeOk inner here⟩
    · obtain ⟨found, listed, within⟩ := nested_within_arms loops _ _ rest others othersOk inner there
      exact ⟨found, List.mem_cons_of_mem _ listed, within⟩
end

def Evaluated (e : Expression) (items : List Item) : Prop :=
  ∃ f, expression vars e = .ok f ∧ ∀ part i, i ∈ part → (∀ v, i ≠ .push v) → part <:+: f.code → ops part <:+: items

theorem evaluated_in (e : Expression) (f : Fragment) (code : List Instruction) (items : List Item)
    (compiled : expression vars e = .ok f) (kept : code = f.code ∨ ∃ t, code = (f.castTo t).code)
    (held : ops code <:+: items) : Evaluated vars e items := by
  refine ⟨f, compiled, fun part i member operator inside => ?_⟩
  have within : part <:+: code := by
    rcases kept with rfl | ⟨t, rfl⟩
    · exact inside
    · exact infix_cast part i member operator f t inside
  exact (within.map Item.op).trans held

theorem infix_evaluated (e : Expression) (items outer : List Item) (evaluated : Evaluated vars e items)
    (held : items <:+: outer) : Evaluated vars e outer := by
  obtain ⟨f, compiled, parts⟩ := evaluated
  exact ⟨f, compiled, fun part i member operator inside => (parts part i member operator inside).trans held⟩

theorem branch_evaluated (loops base : Nat) (line : UInt16) (otherwise : Nat → Except Fault (List Item))
    (branches : List (Expression × List Statement)) (items : List Item)
    (compiled : choice vars loops base line otherwise branches = .ok items) (e : Expression)
    (member : e ∈ branches.map (·.1)) : Evaluated vars e items := by
  induction branches generalizing base line items with
  | nil => simp at member
  | cons branch rest ih =>
    obtain ⟨cond, body⟩ := branch
    obtain ⟨test, code, others, next, testOk, _, _, othersOk, rfl⟩ :=
      choice_cons_ok vars loops base line otherwise cond body rest items compiled
    rcases List.mem_cons.mp member with rfl | later
    · obtain ⟨f, fragment, _, rfl⟩ := condition_ok vars e test testOk
      refine evaluated_in vars e f f.code _ fragment (.inl rfl) ?_
      simp only [List.append_assoc]
      exact (List.prefix_append _ _).isInfix
    · exact infix_evaluated vars e others _ (ih next _ others othersOk later) (List.suffix_append _ _).isInfix

theorem operand_evaluated (loops base : Nat) (s : Statement) (items : List Item)
    (compiled : statement vars loops base s = .ok items) (e : Expression) (member : e ∈ s.operands) :
    Evaluated vars e items := by
  cases s with
  | exit _ _ | leave _ => cases member
  | assign line span name value =>
    cases List.mem_singleton.mp member
    obtain ⟨code, made, rfl⟩ := assign_statement_ok vars loops base line span name e items compiled
    obtain ⟨index, t, f, _, fragment, _, rfl⟩ := assignment_ok vars span name e code made
    exact evaluated_in vars e f _ _ fragment (.inr ⟨t, rfl⟩) ((List.prefix_append _ _).isInfix.map Item.op)
  | choose line branches otherwise =>
    exact branch_evaluated vars loops base line _ branches items
      (choose_statement_ok vars loops base line branches otherwise items compiled) e member
  | select line selected arms otherwise =>
    cases List.mem_singleton.mp member
    obtain ⟨f, tests, elseCode, bodies, elseAt, made, _, _, _, _, rfl⟩ :=
      select_statement_ok vars loops base line e arms otherwise items compiled
    refine evaluated_in vars e f f.code _ (selector_ok vars e f made).1 (.inl rfl) ?_
    simp only [caseCode, List.append_assoc]
    exact (List.prefix_append _ _).isInfix
  | count line span name first last step body =>
    obtain ⟨c, code, top, bodyAt, exit, made, _, _, _, _, rfl⟩ :=
      count_statement_ok vars loops base line span name first last step body items compiled
    obtain ⟨_, _, firstOk, lastOk, stepped⟩ := counting_ok vars span name first last step c made
    have bounded (e : Expression) (own : List Instruction) (boundOk : bound vars c.dataType e = .ok own)
        (part : List Item) (inside : ops own <:+: part) (held : part <:+: ops c.start ++ ops (c.test top exit) ++
          code.map (·.leaveTo exit) ++ ops (c.finish top)) : Evaluated vars e (ops c.start ++
            ops (c.test top exit) ++ code.map (·.leaveTo exit) ++ ops (c.finish top)) := by
      obtain ⟨f, fragment, _, rfl⟩ := bound_ok vars c.dataType e own boundOk
      exact evaluated_in vars e f _ _ fragment (.inr ⟨c.dataType, rfl⟩) (inside.trans held)
    have front : ops c.start <:+: ops c.start ++ ops (c.test top exit) ++ code.map (·.leaveTo exit) ++
        ops (c.finish top) := by
      simp only [List.append_assoc]
      exact (List.prefix_append _ _).isInfix
    rcases List.mem_cons.mp member with rfl | member
    · refine bounded e c.first firstOk (ops c.start) (List.IsInfix.map Item.op ?_) front
      rw [Counting.start, List.append_assoc]
      exact (List.prefix_append _ _).isInfix
    · rcases List.mem_cons.mp member with rfl | stepping
      · exact bounded e c.last lastOk (ops c.start) ((List.suffix_append _ _).isInfix.map Item.op) front
      · cases step with
        | none => cases stepping
        | some by_ =>
          cases List.mem_singleton.mp stepping
          refine bounded e c.step stepped.1 (ops (c.finish top)) (List.IsInfix.map Item.op ?_)
            (List.suffix_append _ _).isInfix
          exact List.infix_append [.load c.index] c.step [.binary .add c.dataType, .store c.index, .jump top, .discard]
  | «while» line cond body =>
    cases List.mem_singleton.mp member
    obtain ⟨test, code, exit, made, _, _, rfl⟩ := while_statement_ok vars loops base line e body items compiled
    obtain ⟨f, fragment, _, rfl⟩ := condition_ok vars e test made
    refine evaluated_in vars e f f.code _ fragment (.inl rfl) ?_
    simp only [List.append_assoc]
    exact (List.prefix_append _ _).isInfix
  | «repeat» line body cond =>
    cases List.mem_singleton.mp member
    obtain ⟨code, test, exit, _, made, _, rfl⟩ := repeat_statement_ok vars loops base line body e items compiled
    obtain ⟨f, fragment, _, rfl⟩ := condition_ok vars e test made
    exact evaluated_in vars e f f.code _ fragment (.inl rfl) (List.infix_append _ _ _)

end SoftPlc.Compile
