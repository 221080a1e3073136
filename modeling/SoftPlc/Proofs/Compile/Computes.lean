import SoftPlc.Proofs.Bytecode.Located
import SoftPlc.Proofs.Compile.Inversion
import SoftPlc.Proofs.Evaluation.Evaluator
import SoftPlc.Proofs.Machine.Effects
import SoftPlc.Proofs.Machine.Leads
import SoftPlc.Proofs.Value.Typing

set_option autoImplicit false

namespace SoftPlc

namespace Machine

def YieldsAll (next : Nat) (stack vars : List Value) : Except Fault (List Value) → Machine → Prop
  | .ok vs, m => m.At next (vs.reverse ++ stack) vars
  | .error f, m => m.Faulted f vars

theorem leads_faulted (b : Bytecode) (least : Nat) (m : Machine) (f : Fault) (vars : List Value)
    (faulted : m.Faulted f vars) : Leads b least m (·.Faulted f vars) := by
  refine ⟨least, Nat.le_refl least, .inl ?_⟩
  rw [iterate_stopped b m (not_running_of_fault m f faulted.fault)]
  exact faulted

end Machine

namespace Compile

open Machine

def Runs (store : List Value) (code : List Instruction) (result : Except Fault Value) : Prop :=
  ∀ (b : Bytecode) (m : Machine) (base : Nat) (stack : List Value),
    Located b.code base code → m.At base stack store →
      Leads b 1 m (Yields (base + code.length) stack store result)

def RunsAll (store : List Value) (code : List Instruction) (results : Except Fault (List Value)) : Prop :=
  ∀ (b : Bytecode) (m : Machine) (base : Nat) (stack : List Value),
    Located b.code base code → m.At base stack store →
      Leads b 0 m (YieldsAll (base + code.length) stack store results)

def before (first : Except Fault Value) (others : Except Fault (List Value)) : Except Fault (List Value) := do
  let v ← first
  let vs ← others
  return v :: vs

theorem runs_all_nil (store : List Value) : RunsAll store [] (.ok []) := by
  intro b m base stack _ here
  exact leads_now b m _ here

theorem runs_all_cons (store : List Value) (code codes : List Instruction) (first : Except Fault Value)
    (others : Except Fault (List Value)) (runs : Runs store code first) (rest : RunsAll store codes others) :
    RunsAll store (code ++ codes) (before first others) := by
  intro b m base stack located here
  obtain ⟨front, back⟩ := (located_append b.code base code codes).mp located
  refine leads_less b 0 (1 + 0) m _ (by omega) ?_
  refine leads_trans b 1 0 m _ _ (runs b m base stack front here) ?_
  intro m' yielded
  cases first with
  | error f => exact leads_faulted b 0 m' f store yielded
  | ok v =>
    refine leads_weaken b 0 m' _ _ ?_ (rest b m' _ _ back yielded)
    intro m'' all
    cases others with
    | error f => exact all
    | ok vs =>
      have here : m''.At (base + code.length + codes.length) (vs.reverse ++ v :: stack) store := all
      simpa [before, bind, Except.bind, pure, Except.pure, YieldsAll, Nat.add_assoc] using here

theorem runs_operation (store : List Value) (code : List Instruction) (results : Except Fault (List Value))
    (i : Instruction) (operation : List Value → Except Fault Value) (runs : RunsAll store code results)
    (performs : ∀ vs stack, results = .ok vs → perform store (vs.reverse ++ stack) i =
      do return { stack := ← pushResult (operation vs) stack, vars := store }) :
    Runs store (code ++ [i]) (results >>= operation) := by
  intro b m base stack located here
  obtain ⟨front, back⟩ := (located_append b.code base code [i]).mp located
  have last := (located_singleton b.code _ i).mp back
  refine leads_trans b 0 1 m _ _ (runs b m base stack front here) ?_
  intro m' yielded
  cases results with
  | error f => exact leads_faulted b 1 m' f store yielded
  | ok vs =>
    have done := leads_result b m' _ _ store stack i (operation vs) yielded last (performs vs stack rfl)
    simpa [bind, Except.bind, Nat.add_assoc] using done

structure Computes (store : List Value) (f : Fragment) (result : Except Fault Value) : Prop where
  delivers : Delivers f.dataType result
  literal : ∀ w, f.code = [.push w] → result = .ok w
  runs : Runs store f.code result

inductive ComputesAll (store : List Value) : List Fragment → Except Fault (List Value) → Prop where
  | nil : ComputesAll store [] (.ok [])
  | cons (f : Fragment) (fs : List Fragment) (first : Except Fault Value) (others : Except Fault (List Value)) :
      Computes store f first → ComputesAll store fs others → ComputesAll store (f :: fs) (before first others)

theorem computes_all_runs (store : List Value) (fs : List Fragment) (results : Except Fault (List Value))
    (all : ComputesAll store fs results) : RunsAll store (fs.map (·.code)).flatten results := by
  induction all with
  | nil => exact runs_all_nil store
  | cons f fs first others computes _ ih => exact runs_all_cons store _ _ first others computes.runs ih

theorem computes_all_types (store : List Value) (fs : List Fragment) (results : Except Fault (List Value))
    (all : ComputesAll store fs results) :
    match results with
    | .ok vs => vs.map (·.dataType) = fs.map (·.dataType)
    | .error f => f.Arithmetical := by
  induction all with
  | nil => rfl
  | cons f fs first others computes _ ih =>
    have delivers := computes.delivers
    cases first with
    | error x => exact delivers
    | ok v =>
      cases others with
      | error x => exact ih
      | ok vs => exact congrArg₂ List.cons delivers ih

-- Every operator, conversion and call: the operands' code and one instruction that pushes the
-- result. No code of this form is that of a literal.
theorem computes_operation (store : List Value) (fs : List Fragment) (results : Except Fault (List Value))
    (i : Instruction) (t : DataType) (operation : List Value → Except Fault Value)
    (all : ComputesAll store fs results) (operator : ∀ w, i ≠ .push w)
    (performs : ∀ vs stack, vs.map (·.dataType) = fs.map (·.dataType) → perform store (vs.reverse ++ stack) i =
      do return { stack := ← pushResult (operation vs) stack, vars := store })
    (delivers : ∀ vs, vs.map (·.dataType) = fs.map (·.dataType) → Delivers t (operation vs)) :
    Computes store ⟨(fs.map (·.code)).flatten ++ [i], t⟩ (results >>= operation) := by
  have types := computes_all_types store fs results all
  refine ⟨?_, ?_, ?_⟩
  · cases results with
    | error f => exact types
    | ok vs => exact delivers vs types
  · intro w code
    have last := congrArg List.getLast? code
    simp only [List.getLast?_append, List.getLast?_singleton, Option.some_or, Option.some.injEq] at last
    exact absurd last (operator w)
  · apply runs_operation store _ results i operation (computes_all_runs store fs results all)
    intro vs stack same
    subst same
    exact performs vs stack types

def ofOne (operation : Value → Except Fault Value) : List Value → Except Fault Value
  | [v] => operation v
  | _ => Evaluation.meaningless

def ofTwo (operation : Value → Value → Except Fault Value) : List Value → Except Fault Value
  | [l, r] => operation l r
  | _ => Evaluation.meaningless

theorem computes_unary (store : List Value) (f : Fragment) (result : Except Fault Value) (i : Instruction)
    (t : DataType) (operation : Value → Except Fault Value) (computes : Computes store f result)
    (operator : ∀ w, i ≠ .push w)
    (performs : ∀ v stack, v.dataType = f.dataType → perform store (v :: stack) i =
      do return { stack := ← pushResult (operation v) stack, vars := store })
    (delivers : ∀ v, v.dataType = f.dataType → Delivers t (operation v)) :
    Computes store ⟨f.code ++ [i], t⟩ (result >>= operation) := by
  have computed : Computes store ⟨([f].map (·.code)).flatten ++ [i], t⟩
      (before result (.ok []) >>= ofOne operation) := by
    apply computes_operation store [f] _ i t (ofOne operation) (.cons f [] result (.ok []) computes .nil) operator
    · intro vs stack types
      obtain ⟨v, rfl, typed⟩ := List.map_eq_singleton_iff.mp types
      exact performs v stack typed
    · intro vs types
      obtain ⟨v, rfl, typed⟩ := List.map_eq_singleton_iff.mp types
      exact delivers v typed
  have same : before result (.ok []) >>= ofOne operation = result >>= operation := by
    cases result <;> rfl
  simpa [same] using computed

theorem computes_binary (store : List Value) (f g : Fragment) (left right : Except Fault Value)
    (i : Instruction) (t : DataType) (operation : Value → Value → Except Fault Value)
    (first : Computes store f left) (second : Computes store g right) (operator : ∀ w, i ≠ .push w)
    (performs : ∀ l r stack, l.dataType = f.dataType → r.dataType = g.dataType →
      perform store (r :: l :: stack) i =
        do return { stack := ← pushResult (operation l r) stack, vars := store })
    (delivers : ∀ l r, l.dataType = f.dataType → r.dataType = g.dataType → Delivers t (operation l r)) :
    Computes store ⟨f.code ++ g.code ++ [i], t⟩ (do operation (← left) (← right)) := by
  have computed : Computes store ⟨([f, g].map (·.code)).flatten ++ [i], t⟩
      (before left (before right (.ok [])) >>= ofTwo operation) := by
    apply computes_operation store [f, g] _ i t (ofTwo operation)
      (.cons f [g] left _ first (.cons g [] right (.ok []) second .nil)) operator
    · intro vs stack types
      obtain ⟨l, _, rfl, leftTyped, rest⟩ := List.map_eq_cons_iff.mp types
      obtain ⟨r, rfl, rightTyped⟩ := List.map_eq_singleton_iff.mp rest
      exact performs l r stack leftTyped rightTyped
    · intro vs types
      obtain ⟨l, _, rfl, leftTyped, rest⟩ := List.map_eq_cons_iff.mp types
      obtain ⟨r, rfl, rightTyped⟩ := List.map_eq_singleton_iff.mp rest
      exact delivers l r leftTyped rightTyped
  have same : before left (before right (.ok [])) >>= ofTwo operation = (do operation (← left) (← right)) := by
    cases left <;> cases right <;> rfl
  simpa [same] using computed

theorem computes_literal (store : List Value) (v : Value) : Computes store (.literal v) (.ok v) := by
  refine ⟨rfl, ?_, ?_⟩
  · intro w code
    cases code
    rfl
  · intro b m base stack located here
    have fetch := (located_singleton b.code base _).mp located
    exact leads_result b m base stack store stack (.push v) (.ok v) here fetch (perform_push store stack v)

theorem computes_load (store : List Value) (index : Nat) (v : Value) (found : store[index]? = some v) :
    Computes store ⟨[.load index], v.dataType⟩ (.ok v) := by
  refine ⟨rfl, ?_, ?_⟩
  · intro w code
    cases code
  · intro b m base stack located here
    have fetch := (located_singleton b.code base _).mp located
    exact leads_result b m base stack store stack (.load index) (.ok v) here fetch
      (perform_load store stack index v found)

theorem delivers_cast (t : DataType) (result : Except Fault Value) (delivers : Delivers t result) :
    result.map (·.cast t) = result := by
  cases result with
  | error f => rfl
  | ok v =>
    have typed : v.dataType = t := delivers
    exact congrArg Except.ok (typed ▸ v.cast_self)

theorem computes_cast (store : List Value) (f : Fragment) (result : Except Fault Value) (t : DataType)
    (computes : Computes store f result) : Computes store (f.castTo t) (result.map (·.cast t)) := by
  unfold Fragment.castTo
  by_cases same : f.dataType = t
  · -- nothing to convert: the value has the type already
    have unchanged := delivers_cast t result (same ▸ computes.delivers)
    rw [if_pos same, unchanged]
    exact computes
  · rw [if_neg same]
    split
    · rename_i v code
      rw [computes.literal v code]
      have literal : (⟨[.push (v.cast t)], t⟩ : Fragment) = .literal (v.cast t) := by
        rw [Fragment.literal, v.dataType_cast]
      rw [literal]
      exact computes_literal store (v.cast t)
    · have converts := computes_unary store f result (.cast t) t (fun v => .ok (v.cast t)) computes
        (by simp) (fun v stack _ => perform_cast store stack v t) (fun v _ => v.dataType_cast t)
      have results : (result >>= fun v => .ok (v.cast t)) = result.map (·.cast t) := by
        cases result <;> rfl
      rw [results] at converts
      exact converts

theorem computes_all_cast (store : List Value) (fs : List Fragment) (results : Except Fault (List Value))
    (t : DataType) (all : ComputesAll store fs results) :
    ComputesAll store (fs.map (·.castTo t)) (results.map (·.map (·.cast t))) := by
  induction all with
  | nil => exact .nil
  | cons f fs first others computes _ ih =>
    have both := ComputesAll.cons _ _ _ _ (computes_cast store f first t computes) ih
    have results : before (first.map (·.cast t)) (others.map (·.map (·.cast t))) =
        (before first others).map (·.map (·.cast t)) := by
      cases first <;> cases others <;> rfl
    exact results ▸ both

end Compile

end SoftPlc
