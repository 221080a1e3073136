import SoftPlc.Proofs.Compile.Computes
import SoftPlc.Proofs.Compile.Variables

set_option autoImplicit false

namespace SoftPlc.Compile

theorem check_operands_ok (op : BinaryOp) (t : DataType) (span : Span)
    (checked : checkOperands op t span = .ok ()) : op.takes t = true := by
  cases op <;> cases t <;> first | rfl | cases checked

theorem promote_number (a b : DataType) (number : a ≠ .bool) : a.promote b ≠ .bool := by
  cases a <;> cases b <;> first | exact absurd rfl number | decide

theorem common_type_number (types : List DataType) (t : DataType) (number : t ≠ .bool) :
    types.foldl DataType.promote t ≠ .bool := by
  induction types generalizing t with
  | nil => exact number
  | cons u rest ih => exact ih (t.promote u) (promote_number t u number)

variable (vars : List Variable) (store : List Value)

theorem named_computes (span : Span) (name : String) (f : Fragment) (fits : Fits vars store)
    (compiled : expression vars (.named span name) = .ok f) :
    Computes store f (Evaluation.read vars store name) := by
  simp only [expression, bind_ok] at compiled
  obtain ⟨⟨i, v⟩, found, done⟩ := compiled
  cases done
  have named := lookup_ok vars name span (i, v) found
  obtain ⟨x, there, typed⟩ := fits_get vars store i v fits (lookup_index vars name i v named)
  have value : Evaluation.read vars store name = .ok x := by
    simp only [Evaluation.read, named, Option.bind_some, there]
  rw [value, ← typed]
  exact computes_load store i x there

theorem negation_computes (span : Span) (operand f : Fragment) (result : Except Fault Value)
    (computes : Computes store operand result) (compiled : negation span operand = .ok f) :
    Computes store f (result >>= Value.negate) := by
  obtain ⟨number, rfl⟩ := negation_ok span operand f compiled
  apply computes_unary store operand result (.negate operand.dataType) operand.dataType Value.negate
    computes (by simp)
  · intro v stack typed
    exact Machine.perform_negate store stack v _ typed
  · intro v typed
    rw [← typed]
    exact v.negate_delivers (typed ▸ number)

theorem complement_computes (span : Span) (operand f : Fragment) (result : Except Fault Value)
    (computes : Computes store operand result) (compiled : complement span operand = .ok f) :
    Computes store f (result >>= Value.complement) := by
  obtain ⟨bits, rfl⟩ := complement_ok span operand f compiled
  apply computes_unary store operand result (.complement operand.dataType) operand.dataType
    Value.complement computes (by simp)
  · intro v stack typed
    exact Machine.perform_complement store stack v _ typed
  · intro v typed
    rw [← typed]
    exact v.complement_delivers (typed ▸ bits)

theorem binary_computes (span : Span) (op : BinaryOp) (l r f : Fragment) (left right : Except Fault Value)
    (first : Computes store l left) (second : Computes store r right)
    (compiled : binary span op l r = .ok f) :
    Computes store f (do Evaluation.converting.operate op (← left) (← right)) := by
  obtain ⟨_, checked, code, dataType⟩ := binary_ok span op l r f compiled
  let t := operatorType op l.dataType r.dataType
  have takes : op.takes t = true := check_operands_ok op t span checked
  have converted := computes_binary store (l.castTo t) (r.castTo t) _ _ (.binary op t) (op.resultType t)
    op.apply (computes_cast store l left t first) (computes_cast store r right t second) (by simp)
    (by
      intro v w stack leftTyped rightTyped
      rw [Fragment.dataType_castTo] at leftTyped rightTyped
      exact Machine.perform_binary store stack op v w t leftTyped (fun _ => rightTyped))
    (by
      intro v w leftTyped rightTyped
      rw [Fragment.dataType_castTo] at leftTyped rightTyped
      exact leftTyped ▸ op.apply_delivers v w (leftTyped ▸ takes) (rightTyped.trans leftTyped.symm))
  have fragment : f = ⟨(l.castTo t).code ++ (r.castTo t).code ++ [.binary op t], op.resultType t⟩ := by
    cases f
    cases code
    cases dataType
    rfl
  -- the evaluator works out the same type from the values
  have results : (do Evaluation.converting.operate op (← left) (← right)) =
      (do op.apply (← left.map (·.cast t)) (← right.map (·.cast t))) := by
    cases left with
    | error x => rfl
    | ok v =>
      cases right with
      | error x => rfl
      | ok w =>
        have leftTyped : v.dataType = l.dataType := first.delivers
        have rightTyped : w.dataType = r.dataType := second.delivers
        simp only [Evaluation.converting_operate, leftTyped, rightTyped, t, operatorType, Except.map, bind, Except.bind]
  rw [fragment, results]
  exact converted

theorem call_fragment_computes (fs : List Fragment) (results : Except Fault (List Value)) (g : Builtin)
    (all : ComputesAll store fs results) (typed : fs.map (·.dataType) = g.parameters)
    (number : g ≠ .abs .bool) :
    Computes store (callFragment fs g g.resultType) (results >>= g.call) := by
  apply computes_operation store fs results (.call g) g.resultType g.call all (by simp)
  · intro vs stack types
    apply Machine.perform_call
    rw [g.arity_parameters, ← typed, ← types, List.length_map]
  · intro vs types
    exact g.call_delivers vs (types.trans typed) number

inductive CallForm (name : String) : List Fragment → Fragment → Prop where
  | numeric (make : DataType → Builtin) (fs : List Fragment) :
      Signature.ofName? name = some (.numeric make fs.length) →
        CallForm name fs
          (callFragment (fs.map (·.castTo (commonType fs))) (make (commonType fs)) (commonType fs))
  | select (choice a b : Fragment) : Signature.ofName? name = some .select → choice.dataType = .bool →
      CallForm name [choice, a, b]
        (callFragment [choice, a.castTo (a.dataType.promote b.dataType), b.castTo (a.dataType.promote b.dataType)]
          (.select (a.dataType.promote b.dataType)) (a.dataType.promote b.dataType))
  | real (g : Builtin) (a : Fragment) :
      Signature.ofName? name = some (.real g) ∨ Signature.ofName? name = some (.integer g) →
        CallForm name [a] (callFragment [a.castTo .real] g g.resultType)
  | convert (t : DataType) (a : Fragment) : Signature.ofName? name = some (.convert t) →
      CallForm name [a] (a.castTo t)

theorem call_form (span : Span) (name : String) (signature : Signature) (fs : List Fragment) (f : Fragment)
    (found : Signature.ofName? name = some signature) (count : fs.length = signature.arity)
    (compiled : call span signature fs = .ok f) : CallForm name fs f := by
  unfold call at compiled
  split at compiled
  · rename_i make arity
    split at compiled
    · simp [failAt] at compiled
    · cases compiled
      have length : arity = fs.length := count.symm
      subst length
      exact .numeric make fs found
  · rename_i choice a b
    split at compiled
    · simp [failAt] at compiled
    · split at compiled
      · simp [failAt] at compiled
      · rename_i bool _
        cases compiled
        exact .select choice a b found (by simpa using bool)
  · rename_i g a
    split at compiled
    · simp [failAt] at compiled
    · cases compiled
      have form := CallForm.real g a (.inl found)
      rw [(Signature.of_name_told name (.real g) found).2] at form
      exact form
  · rename_i g a
    split at compiled
    · simp [failAt] at compiled
    · cases compiled
      have form := CallForm.real g a (.inr found)
      rw [(Signature.of_name_told name (.integer g) found).2] at form
      exact form
  · rename_i t a
    cases compiled
    exact .convert t a found
  · simp [failAt] at compiled

theorem numeric_call_typed (name : String) (make : DataType → Builtin) (fs : List Fragment)
    (found : Signature.ofName? name = some (.numeric make fs.length)) :
    (fs.map (·.castTo (commonType fs))).map (·.dataType) = (make (commonType fs)).parameters ∧
      (make (commonType fs)).resultType = commonType fs ∧ make (commonType fs) ≠ .abs .bool := by
  obtain ⟨parameters, resultType⟩ := Signature.of_name_told name _ found (commonType fs)
  refine ⟨?_, resultType, ?_⟩
  · rw [parameters, List.map_map]
    simp [Function.comp_def, List.map_const']
  · intro abs
    have bool : commonType fs = .bool := by rw [← resultType, abs]; rfl
    exact common_type_number _ .int (by decide) bool

theorem real_call_typed (name : String) (g : Builtin)
    (found : Signature.ofName? name = some (.real g) ∨ Signature.ofName? name = some (.integer g)) :
    g.parameters = [.real] := by
  rcases found with found | found
  · exact (Signature.of_name_told name (.real g) found).1
  · exact (Signature.of_name_told name (.integer g) found).1

theorem numeric_call_computes (name : String) (make : DataType → Builtin) (fs : List Fragment)
    (results : Except Fault (List Value)) (found : Signature.ofName? name = some (.numeric make fs.length))
    (all : ComputesAll store fs results) :
    Computes store (callFragment (fs.map (·.castTo (commonType fs))) (make (commonType fs)) (commonType fs))
      (results >>= Evaluation.call name) := by
  let t := commonType fs
  obtain ⟨typed, resultType, number⟩ := numeric_call_typed name make fs found
  have called := call_fragment_computes store _ _ (make t) (computes_all_cast store fs results t all) typed number
  have same : (results.map (·.map (·.cast t)) >>= (make t).call) = results >>= Evaluation.call name := by
    have types := computes_all_types store fs results all
    cases results with
    | error x => rfl
    | ok vs =>
      have common : (vs.map (·.dataType)).foldl DataType.promote .int = t := by
        rw [types]
        rfl
      simp only [Evaluation.call, found, common, Except.map, bind, Except.bind]
  rw [resultType, same] at called
  exact called

theorem select_call_computes (name : String) (choice a b : Fragment) (results : Except Fault (List Value))
    (found : Signature.ofName? name = some .select) (all : ComputesAll store [choice, a, b] results)
    (bool : choice.dataType = .bool) :
    let t := a.dataType.promote b.dataType
    Computes store (callFragment [choice, a.castTo t, b.castTo t] (.select t) t)
      (results >>= Evaluation.call name) := by
  intro t
  cases all with
  | cons _ _ first others computes rest =>
  cases rest with
  | cons _ _ second others left rest =>
  cases rest with
  | cons _ _ third others right rest =>
  cases rest
  have converted := ComputesAll.cons _ _ _ _ computes (.cons _ _ _ _ (computes_cast store a second t left)
    (.cons _ _ _ _ (computes_cast store b third t right) .nil))
  have typed : [choice, a.castTo t, b.castTo t].map (·.dataType) = (Builtin.select t).parameters := by
    simp [bool, Builtin.parameters]
  have called := call_fragment_computes store _ _ (.select t) converted typed (by simp)
  have same : (before first (before (second.map (·.cast t)) (before (third.map (·.cast t)) (.ok []))) >>=
      (Builtin.select t).call) = before first (before second (before third (.ok []))) >>= Evaluation.call name := by
    have leftTyped := left.delivers
    have rightTyped := right.delivers
    cases first <;> cases second <;> cases third <;> try rfl
    rename_i c v w
    have common : v.dataType.promote w.dataType = t := congrArg₂ DataType.promote leftTyped rightTyped
    simp only [before, Evaluation.call, found, common, Except.map, bind, Except.bind, pure, Except.pure]
  rw [same] at called
  exact called

theorem real_call_computes (name : String) (g : Builtin) (a : Fragment) (results : Except Fault (List Value))
    (found : Signature.ofName? name = some (.real g) ∨ Signature.ofName? name = some (.integer g))
    (all : ComputesAll store [a] results) :
    Computes store (callFragment [a.castTo .real] g g.resultType) (results >>= Evaluation.call name) := by
  have parameters := real_call_typed name g found
  cases all with
  | cons _ _ first others computes rest =>
  cases rest
  have converted := ComputesAll.cons _ _ _ _ (computes_cast store a first .real computes) .nil
  have called := call_fragment_computes store _ _ g converted (by simp [parameters])
    (by rintro rfl; cases parameters)
  have same : (before (first.map (·.cast .real)) (.ok []) >>= g.call) =
      before first (.ok []) >>= Evaluation.call name := by
    cases first with
    | error x => rfl
    | ok v => rcases found with found | found <;>
        simp only [before, Evaluation.call, found, Except.map, bind, Except.bind, pure, Except.pure]
  rw [same] at called
  exact called

theorem convert_call_computes (name : String) (t : DataType) (a : Fragment) (results : Except Fault (List Value))
    (found : Signature.ofName? name = some (.convert t)) (all : ComputesAll store [a] results) :
    Computes store (a.castTo t) (results >>= Evaluation.call name) := by
  cases all with
  | cons _ _ first others computes rest =>
  cases rest
  have same : first.map (·.cast t) = before first (.ok []) >>= Evaluation.call name := by
    cases first with
    | error x => rfl
    | ok v => simp only [before, Evaluation.call, found, Except.map, bind, Except.bind, pure, Except.pure]
  rw [← same]
  exact computes_cast store a first t computes

theorem call_computes (name : String) (fs : List Fragment) (f : Fragment) (results : Except Fault (List Value))
    (form : CallForm name fs f) (all : ComputesAll store fs results) :
    Computes store f (results >>= Evaluation.call name) := by
  cases form with
  | numeric make fs found => exact numeric_call_computes store name make _ results found all
  | select choice a b found bool => exact select_call_computes store name choice a b results found all bool
  | real g a found => exact real_call_computes store name g a results found all
  | convert t a found => exact convert_call_computes store name t a results found all

theorem literal_computes (n : Int) (span : Span) (v : Value) (compiled : integerLiteral n span = .ok v) :
    Computes store (.literal v) (Evaluation.literal n) := by
  have value : Evaluation.literal n = .ok v := by
    simp only [Evaluation.literal, literal_ok n span v compiled]
  rw [value]
  exact computes_literal store v

theorem evaluate_negation (span : Span) (e : Expression) (other : ∀ s n, e ≠ .integer s n) :
    Evaluation.converting.expression vars store (.negation span e) =
      Evaluation.converting.expression vars store e >>= Value.negate := by
  rw [Evaluation.Reading.expression]
  exact other

theorem negated_ok (span : Span) (e : Expression) (f : Fragment)
    (compiled : expression vars (.negation span e) = .ok f) :
    (∃ v, Evaluation.converting.expression vars store (.negation span e) = .ok v ∧ f = .literal v) ∨
      ∃ operand, expression vars e = .ok operand ∧ negation span operand = .ok f ∧
        Evaluation.converting.expression vars store (.negation span e) =
          Evaluation.converting.expression vars store e >>= Value.negate := by
  cases e with
  | integer _ n =>
    simp only [expression, bind_ok] at compiled
    obtain ⟨v, literal, done⟩ := compiled
    cases done
    refine .inl ⟨v, ?_, rfl⟩
    simp only [Evaluation.Reading.expression, Evaluation.literal, literal_ok (-n) span v literal]
  | real _ x =>
    simp only [expression, Except.ok.injEq] at compiled
    refine .inl ⟨negatedRealLiteral x, ?_, compiled.symm⟩
    simp only [Evaluation.Reading.expression]
    rfl
  | _ =>
    rw [expression, bind_ok] at compiled
    · obtain ⟨operand, operandOk, done⟩ := compiled
      exact .inr ⟨operand, operandOk, done, evaluate_negation vars store span _ (by simp)⟩
    all_goals simp

mutual
theorem expression_computes (e : Expression) (f : Fragment) (fits : Fits vars store)
    (compiled : expression vars e = .ok f) : Computes store f (Evaluation.converting.expression vars store e) := by
  cases e with
  | integer span n =>
    simp only [expression, bind_ok] at compiled
    obtain ⟨v, literal, done⟩ := compiled
    cases done
    simpa only [Evaluation.Reading.expression] using literal_computes store n span v literal
  | real span x =>
    simp only [expression, Except.ok.injEq] at compiled
    rw [← compiled, Evaluation.Reading.expression]
    exact computes_literal store _
  | bool span b =>
    simp only [expression, Except.ok.injEq] at compiled
    rw [← compiled, Evaluation.Reading.expression]
    exact computes_literal store _
  | named span name =>
    simpa only [Evaluation.Reading.expression] using named_computes vars store span name f fits compiled
  | negation span e =>
    rcases negated_ok vars store span e f compiled with ⟨v, value, rfl⟩ | ⟨operand, operandOk, done, value⟩
    · rw [value]
      exact computes_literal store v
    · have computes := expression_computes e operand fits operandOk
      rw [value]
      exact negation_computes store span operand f _ computes done
  | complement span e =>
    simp only [expression, bind_ok] at compiled
    obtain ⟨operand, operandOk, done⟩ := compiled
    have computes := expression_computes e operand fits operandOk
    simpa only [Evaluation.Reading.expression] using complement_computes store span operand f _ computes done
  | binary span op l r =>
    simp only [expression, bind_ok] at compiled
    obtain ⟨left, leftOk, right, rightOk, done⟩ := compiled
    have first := expression_computes l left fits leftOk
    have second := expression_computes r right fits rightOk
    simpa only [Evaluation.Reading.expression] using binary_computes store span op left right f _ _ first second done
  | call span name args =>
    simp only [expression, bind_ok] at compiled
    obtain ⟨signature, signatureOk, fs, fsOk, done⟩ := compiled
    obtain ⟨found, count⟩ := signature_ok span name args.length signature signatureOk
    obtain ⟨all, length⟩ := expressions_compute args fs fits fsOk
    have form := call_form span name signature fs f found (length.trans count) done
    simpa only [Evaluation.Reading.expression] using call_computes store name fs f _ form all

theorem expressions_compute (args : List Expression) (fs : List Fragment) (fits : Fits vars store)
    (compiled : expressions vars args = .ok fs) :
    ComputesAll store fs (Evaluation.converting.expressions vars store args) ∧ fs.length = args.length := by
  cases args with
  | nil =>
    cases compiled
    exact ⟨.nil, rfl⟩
  | cons e rest =>
    obtain ⟨first, others, firstOk, othersOk, rfl⟩ := expressions_cons_ok vars e rest fs compiled
    have computes := expression_computes e first fits firstOk
    obtain ⟨all, length⟩ := expressions_compute rest others fits othersOk
    exact ⟨.cons first others _ _ computes all, congrArg Nat.succ length⟩
end

end SoftPlc.Compile
