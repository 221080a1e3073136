import SoftPlc.Proofs.Compile.Expressions

set_option autoImplicit false

namespace SoftPlc

def Instruction.Computing : Instruction → Prop
  | .push _ | .load _ | .cast _ | .binary _ _ | .negate _ | .complement _ | .call _ => True
  | _ => False

namespace Compile

def AllComputing (code : List Instruction) : Prop := ∀ i ∈ code, i.Computing

theorem computing_append (p q : List Instruction) (first : AllComputing p) (second : AllComputing q) :
    AllComputing (p ++ q) := by
  intro i member
  rcases List.mem_append.mp member with left | right
  · exact first i left
  · exact second i right

theorem computing_last (code : List Instruction) (i : Instruction) (computing : AllComputing code)
    (last : i.Computing) : AllComputing (code ++ [i]) := by
  refine computing_append code [i] computing ?_
  intro j member
  rwa [List.mem_singleton.mp member]

theorem computing_literal (v : Value) : AllComputing [.push v] := by
  intro i member
  rw [List.mem_singleton.mp member]
  trivial

theorem cast_computing (f : Fragment) (t : DataType) (computing : AllComputing f.code) :
    AllComputing (f.castTo t).code := by
  unfold Fragment.castTo
  split
  · exact computing
  · split
    · exact computing_literal _
    · exact computing_last _ _ computing trivial

theorem call_computing (name : String) (fs : List Fragment) (f : Fragment) (form : CallForm name fs f)
    (computing : ∀ g ∈ fs, AllComputing g.code) : AllComputing f.code := by
  have called (all : List Fragment) (g : Builtin) (t : DataType) (each : ∀ h ∈ all, AllComputing h.code) :
      AllComputing (callFragment all g t).code := by
    refine computing_last _ _ ?_ trivial
    intro i member
    obtain ⟨code, listed, inside⟩ := List.mem_flatten.mp member
    obtain ⟨h, argument, rfl⟩ := List.mem_map.mp listed
    exact each h argument i inside
  cases form with
  | numeric make fs found =>
    refine called _ _ _ ?_
    intro h member
    obtain ⟨g, argument, rfl⟩ := List.mem_map.mp member
    exact cast_computing g _ (computing g argument)
  | select choice a b found bool =>
    refine called _ _ _ ?_
    intro h member
    simp only [List.mem_cons, List.not_mem_nil, or_false] at member
    rcases member with rfl | rfl | rfl
    · exact computing h List.mem_cons_self
    · exact cast_computing a _ (computing a (by simp))
    · exact cast_computing b _ (computing b (by simp))
  | real g a found =>
    refine called _ _ _ ?_
    intro h member
    rw [List.mem_singleton.mp member]
    exact cast_computing a _ (computing a List.mem_cons_self)
  | convert t a found => exact cast_computing a t (computing a List.mem_cons_self)

variable (vars : List Variable)

mutual
theorem expression_computing (e : Expression) (f : Fragment) (compiled : expression vars e = .ok f) :
    AllComputing f.code := by
  cases e with
  | integer span n =>
    simp only [expression, bind_ok] at compiled
    obtain ⟨v, _, done⟩ := compiled
    cases done
    exact computing_literal v
  | real span x =>
    simp only [expression, Except.ok.injEq] at compiled
    rw [← compiled]
    exact computing_literal _
  | bool span b =>
    simp only [expression, Except.ok.injEq] at compiled
    rw [← compiled]
    exact computing_literal _
  | named span name =>
    simp only [expression, bind_ok] at compiled
    obtain ⟨⟨i, v⟩, _, done⟩ := compiled
    cases done
    intro j member
    rw [List.mem_singleton.mp member]
    trivial
  | negation span e =>
    rcases negated_ok vars [] span e f compiled with ⟨v, _, rfl⟩ | ⟨operand, operandOk, done, _⟩
    · exact computing_literal v
    · rw [(negation_ok span operand f done).2]
      exact computing_last _ _ (expression_computing e operand operandOk) trivial
  | complement span e =>
    simp only [expression, bind_ok] at compiled
    obtain ⟨operand, operandOk, done⟩ := compiled
    rw [(complement_ok span operand f done).2]
    exact computing_last _ _ (expression_computing e operand operandOk) trivial
  | binary span op l r =>
    simp only [expression, bind_ok] at compiled
    obtain ⟨left, leftOk, right, rightOk, done⟩ := compiled
    rw [(binary_ok span op left right f done).2.2.1]
    have first := cast_computing left (operatorType op left.dataType right.dataType) (expression_computing l left leftOk)
    have second := cast_computing right (operatorType op left.dataType right.dataType) (expression_computing r right rightOk)
    exact computing_last _ _ (computing_append _ _ first second) trivial
  | call span name args =>
    simp only [expression, bind_ok] at compiled
    obtain ⟨signature, signatureOk, fs, fsOk, done⟩ := compiled
    obtain ⟨found, count⟩ := signature_ok span name args.length signature signatureOk
    have form := call_form span name signature fs f found ((expressions_length vars args fs fsOk).trans count) done
    exact call_computing name fs f form (expressions_computing args fs fsOk)

theorem expressions_computing (args : List Expression) (fs : List Fragment) (compiled : expressions vars args = .ok fs) :
    ∀ f ∈ fs, AllComputing f.code := by
  cases args with
  | nil =>
    cases compiled
    simp
  | cons e rest =>
    obtain ⟨first, others, firstOk, othersOk, rfl⟩ := expressions_cons_ok vars e rest fs compiled
    intro f member
    rcases List.mem_cons.mp member with rfl | later
    · exact expression_computing e f firstOk
    · exact expressions_computing rest others othersOk f later
end

theorem condition_computing (e : Expression) (code : List Instruction) (compiled : condition vars e = .ok code) :
    AllComputing code := by
  obtain ⟨f, fragment, _, rfl⟩ := condition_ok vars e code compiled
  exact expression_computing vars e f fragment

theorem bound_computing (t : DataType) (e : Expression) (code : List Instruction) (compiled : bound vars t e = .ok code) :
    AllComputing code := by
  obtain ⟨f, fragment, _, rfl⟩ := bound_ok vars t e code compiled
  exact cast_computing f t (expression_computing vars e f fragment)

theorem counting_computing (span : Span) (name : String) (first last : Expression) (step : Option Expression)
    (c : Counting) (compiled : counting vars span name first last step = .ok c) :
    AllComputing c.first ∧ AllComputing c.last ∧ AllComputing c.step := by
  obtain ⟨_, _, firstOk, lastOk, stepped⟩ := counting_ok vars span name first last step c compiled
  refine ⟨bound_computing vars _ first c.first firstOk, bound_computing vars _ last c.last lastOk, ?_⟩
  cases step with
  | none =>
    rw [stepped.1]
    exact computing_literal _
  | some e => exact bound_computing vars _ e c.step stepped.1

end Compile

end SoftPlc
