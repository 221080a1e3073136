import SoftPlc.Proofs.Compile.Expressions
import SoftPlc.Proofs.Typing.Code

set_option autoImplicit false

namespace SoftPlc

def Passes (vars : List DataType) (code : List Instruction) (types left : StackType) : Prop :=
  ∃ between : List StackType, between.length = code.length ∧
    ∀ all base, Located all base between → all[base + code.length]? = some left →
      all[base]? = some types ∧ TypedCode vars all base code

section
variable (vars : List DataType)

theorem passes_nil (types : StackType) : Passes vars [] types types := by
  refine ⟨[], rfl, ?_⟩
  intro all base _ there
  exact ⟨there, typed_nil vars all base⟩

theorem passes_append (p q : List Instruction) (types mid left : StackType)
    (first : Passes vars p types mid) (second : Passes vars q mid left) : Passes vars (p ++ q) types left := by
  obtain ⟨front, frontLength, frontTyped⟩ := first
  obtain ⟨back, backLength, backTyped⟩ := second
  refine ⟨front ++ back, by simp [frontLength, backLength], ?_⟩
  intro all base located there
  obtain ⟨inFront, inBack⟩ := (located_append all base front back).mp located
  rw [frontLength] at inBack
  rw [List.length_append, ← Nat.add_assoc] at there
  obtain ⟨middle, typedBack⟩ := backTyped all _ inBack there
  obtain ⟨start, typedFront⟩ := frontTyped all base inFront middle
  exact ⟨start, (typed_append vars all base p q).mpr ⟨typedFront, typedBack⟩⟩

theorem passes_one (i : Instruction) (types left : StackType) (fits : i.after vars types = some left)
    (straight : ∀ pc, i.successors pc = [pc + 1]) : Passes vars [i] types left := by
  refine ⟨[types], rfl, ?_⟩
  intro all base located there
  have here := (located_singleton all base types).mp located
  refine ⟨here, (typed_singleton vars all base i).mpr ⟨types, left, here, fits, ?_⟩⟩
  intro next member
  rw [straight, List.mem_singleton] at member
  rw [member]
  exact there

end

namespace Compile

def Yielding (vars : List DataType) (f : Fragment) : Prop :=
  ∀ types, Passes vars f.code types (f.dataType :: types)

variable (vars : List DataType)

theorem yielding_literal (v : Value) : Yielding vars (.literal v) :=
  fun types => passes_one vars (.push v) types _ rfl (fun _ => rfl)

theorem yielding_cast (f : Fragment) (t : DataType) (yields : Yielding vars f) :
    Yielding vars (f.castTo t) := by
  unfold Fragment.castTo
  split
  · exact yields
  · split
    · rename_i v _
      intro types
      have pushes := yielding_literal vars (v.cast t) types
      rw [Fragment.literal, Value.dataType_cast] at pushes
      exact pushes
    · intro types
      exact passes_append vars f.code _ types _ _ (yields types)
        (passes_one vars (.cast t) _ _ rfl (fun _ => rfl))

theorem all_yielding (fs : List Fragment) (yields : ∀ f ∈ fs, Yielding vars f) (types : StackType) :
    Passes vars (fs.map (·.code)).flatten types ((fs.map (·.dataType)).reverse ++ types) := by
  induction fs generalizing types with
  | nil => exact passes_nil vars types
  | cons f fs ih =>
    have first := yields f List.mem_cons_self types
    have others := ih (fun g member => yields g (List.mem_cons_of_mem f member)) (f.dataType :: types)
    have both := passes_append vars _ _ types _ _ first others
    simpa using both

theorem yielding_binary (span : Span) (op : BinaryOp) (l r f : Fragment) (left : Yielding vars l)
    (right : Yielding vars r) (compiled : binary span op l r = .ok f) : Yielding vars f := by
  obtain ⟨_, checked, code, dataType⟩ := binary_ok span op l r f compiled
  let t := operatorType op l.dataType r.dataType
  have takes : op.takes t = true := check_operands_ok op t span checked
  intro types
  rw [code, dataType]
  have first := yielding_cast vars l t left types
  have second := yielding_cast vars r t right (t :: types)
  rw [Fragment.dataType_castTo] at first second
  have both := passes_append vars _ _ types _ _ first second
  refine passes_append vars _ _ types _ _ both (passes_one vars (.binary op t) _ _ ?_ (fun _ => rfl))
  exact if_pos ⟨rfl, rfl, takes⟩

theorem yielding_call (fs : List Fragment) (g : Builtin) (yields : ∀ f ∈ fs, Yielding vars f)
    (typed : fs.map (·.dataType) = g.parameters) (number : g ≠ .abs .bool) :
    Yielding vars (callFragment fs g g.resultType) := by
  intro types
  have all := all_yielding vars fs yields types
  refine passes_append vars _ _ types _ _ all (passes_one vars (.call g) _ _ ?_ (fun _ => rfl))
  have arity : g.arity = (fs.map (·.dataType)).reverse.length := by
    rw [List.length_reverse, typed, g.arity_parameters]
  simp only [Instruction.after, arity, List.take_left, List.drop_left]
  exact if_pos ⟨number, congrArg List.reverse typed⟩

theorem call_yields (name : String) (fs : List Fragment) (f : Fragment) (form : CallForm name fs f)
    (yields : ∀ f ∈ fs, Yielding vars f) : Yielding vars f := by
  cases form with
  | numeric make fs found =>
    obtain ⟨typed, resultType, number⟩ := numeric_call_typed name make _ found
    have casts : ∀ g ∈ fs.map (·.castTo (commonType fs)), Yielding vars g := by
      intro g member
      obtain ⟨f, inside, rfl⟩ := List.mem_map.mp member
      exact yielding_cast vars f _ (yields f inside)
    have called := yielding_call vars _ _ casts typed number
    rw [resultType] at called
    exact called
  | select choice a b found bool =>
    apply yielding_call vars _ (.select _) ?_ (by simp [bool, Builtin.parameters]) (by simp)
    intro g member
    simp only [List.mem_cons, List.not_mem_nil, or_false] at member
    rcases member with rfl | rfl | rfl
    · exact yields g (by simp)
    · exact yielding_cast vars a _ (yields a (by simp))
    · exact yielding_cast vars b _ (yields b (by simp))
  | real g a found =>
    have parameters := real_call_typed name g found
    apply yielding_call vars _ g ?_ (by simp [parameters]) (by rintro rfl; cases parameters)
    intro h member
    rw [List.mem_singleton.mp member]
    exact yielding_cast vars a .real (yields a (by simp))
  | convert t a found => exact yielding_cast vars a t (yields a (by simp))

variable (table : List Variable)

mutual
theorem expression_yields (e : Expression) (f : Fragment) (compiled : expression table e = .ok f) :
    Yielding (table.map (·.dataType)) f := by
  cases e with
  | integer span n =>
    simp only [expression, bind_ok] at compiled
    obtain ⟨v, _, done⟩ := compiled
    cases done
    exact yielding_literal _ v
  | real span x =>
    simp only [expression, Except.ok.injEq] at compiled
    rw [← compiled]
    exact yielding_literal _ _
  | bool span b =>
    simp only [expression, Except.ok.injEq] at compiled
    rw [← compiled]
    exact yielding_literal _ _
  | named span name =>
    simp only [expression, bind_ok] at compiled
    obtain ⟨⟨i, v⟩, found, done⟩ := compiled
    cases done
    have there := lookup_index table name i v (lookup_ok table name span (i, v) found)
    intro types
    refine passes_one _ (.load i) types _ ?_ (fun _ => rfl)
    simp only [Instruction.after, List.getElem?_map, there, Option.map_some]
  | negation span e =>
    rcases negated_ok table [] span e f compiled with ⟨v, _, rfl⟩ | ⟨operand, operandOk, done, _⟩
    · exact yielding_literal _ v
    · have yields := expression_yields e operand operandOk
      obtain ⟨number, rfl⟩ := negation_ok span operand f done
      intro types
      exact passes_append _ _ _ types _ _ (yields types)
        (passes_one _ (.negate _) _ _ (if_pos ⟨rfl, number⟩) (fun _ => rfl))
  | complement span e =>
    simp only [expression, bind_ok] at compiled
    obtain ⟨operand, operandOk, done⟩ := compiled
    have yields := expression_yields e operand operandOk
    obtain ⟨bits, rfl⟩ := complement_ok span operand f done
    intro types
    exact passes_append _ _ _ types _ _ (yields types)
      (passes_one _ (.complement _) _ _ (if_pos ⟨rfl, bits⟩) (fun _ => rfl))
  | binary span op l r =>
    simp only [expression, bind_ok] at compiled
    obtain ⟨left, leftOk, right, rightOk, done⟩ := compiled
    exact yielding_binary _ span op left right f (expression_yields l left leftOk)
      (expression_yields r right rightOk) done
  | call span name args =>
    simp only [expression, bind_ok] at compiled
    obtain ⟨signature, signatureOk, fs, fsOk, done⟩ := compiled
    obtain ⟨found, count⟩ := signature_ok span name args.length signature signatureOk
    obtain ⟨yields, length⟩ := expressions_yield args fs fsOk
    exact call_yields _ name fs f (call_form span name signature fs f found (length.trans count) done) yields

theorem expressions_yield (args : List Expression) (fs : List Fragment)
    (compiled : expressions table args = .ok fs) :
    (∀ f ∈ fs, Yielding (table.map (·.dataType)) f) ∧ fs.length = args.length := by
  cases args with
  | nil =>
    cases compiled
    exact ⟨by simp, rfl⟩
  | cons e rest =>
    obtain ⟨first, others, firstOk, othersOk, rfl⟩ := expressions_cons_ok table e rest fs compiled
    have yields := expression_yields e first firstOk
    obtain ⟨all, length⟩ := expressions_yield rest others othersOk
    refine ⟨?_, congrArg Nat.succ length⟩
    intro f member
    rcases List.mem_cons.mp member with rfl | inside
    · exact yields
    · exact all f inside
end

end Compile

end SoftPlc
