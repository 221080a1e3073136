import SoftPlc.Proofs.Compile.Variables
import SoftPlc.Proofs.Machine.Effects
import SoftPlc.Proofs.Value.Typing

set_option autoImplicit false

namespace SoftPlc

abbrev StackType := List DataType

namespace Instruction

def after (vars : List DataType) (i : Instruction) (types : StackType) : Option StackType :=
  match i, types with
  | .push v, types => some (v.dataType :: types)
  | .load index, types => vars[index]?.map (· :: types)
  | .store index, t :: types => if vars[index]? = some t then some types else none
  | .duplicate, t :: types => some (t :: t :: types)
  | .discard, _ :: types => some types
  | .cast t, _ :: types => some (t :: types)
  | .binary op t, right :: left :: types =>
    if right = t ∧ left = t ∧ op.takes t = true then some (op.resultType t :: types) else none
  | .negate t, u :: types => if u = t ∧ t ≠ .bool then some (t :: types) else none
  | .complement t, u :: types => if u = t ∧ t ≠ .real then some (t :: types) else none
  | .jump _, types => some types
  | .jumpIfFalse _, .bool :: types => some types
  | .jumpIfTrue _, .bool :: types => some types
  | .call f, types =>
    if f ≠ .abs .bool ∧ types.take f.arity = f.parameters.reverse
    then some (f.resultType :: types.drop f.arity) else none
  | .nop, types => some types
  | .halt, types => some types
  | _, _ => none

def successors (pc : Nat) : Instruction → List Nat
  | .jump a => [a]
  | .jumpIfFalse a | .jumpIfTrue a => [a, pc + 1]
  | .halt => []
  | _ => [pc + 1]

end Instruction

def Fault.Dynamic (f : Fault) : Prop := f.kind = .stackOverflow ∨ f.Arithmetical

namespace Machine

-- What an instruction that fits may do. The stack overflows only where what is left would not fit on it.
def Fitting (vars : List DataType) (next : List Nat) (pc : Nat) (left : StackType) : Attempt Effect → Prop
  | .ok effect => effect.stack.map (·.dataType) = left ∧ effect.vars.map (·.dataType) = vars ∧
      (effect.halts = true ∨ effect.target.getD (pc + 1) ∈ next)
  | .error (f, _) => f.Arithmetical ∨ f.kind = .stackOverflow ∧ bound.depth < left.length

theorem pushed_fits (vars below : List Value) (result : Except Fault Value) (t : DataType) (pc : Nat)
    (delivers : Delivers t result) :
    Fitting (vars.map (·.dataType)) [pc + 1] pc (t :: below.map (·.dataType))
      (do return { stack := ← pushResult result below, vars := vars }) := by
  cases result with
  | error f => exact .inl delivers
  | ok v =>
    have typed : v.dataType = t := delivers
    by_cases room : below.length < bound.depth
    · have pushed : pushResult (.ok v) below = .ok (v :: below) := if_pos room
      rw [pushed]
      exact ⟨by rw [List.map_cons, typed], rfl, .inr (List.mem_singleton.mpr rfl)⟩
    · have full : pushResult (.ok v) below = .error (.because .stackOverflow bound.overflow, below) :=
        if_neg room
      rw [full]
      refine .inr ⟨rfl, ?_⟩
      simp only [List.length_cons, List.length_map]
      omega

-- These equations are made once here. The proofs below would otherwise wait for them together.
attribute [local simp] Instruction.after

variable (vars stack : List Value) (pc : Nat) (types left : StackType)

theorem call_fits (f : Builtin)
    (fits : (Instruction.call f).after (vars.map (·.dataType)) (stack.map (·.dataType)) = some left) :
    Fitting (vars.map (·.dataType)) [pc + 1] pc left (perform vars stack (.call f)) := by
  simp only [Instruction.after] at fits
  by_cases checked : f ≠ .abs .bool ∧ (stack.map (·.dataType)).take f.arity = f.parameters.reverse
  · rw [if_pos checked] at fits
    obtain ⟨number, parameters⟩ := checked
    cases fits
    -- the last argument lies on top
    let args := (stack.take f.arity).reverse
    have typed : args.map (·.dataType) = f.parameters := by
      rw [List.map_reverse, List.map_take, parameters, List.reverse_reverse]
    have count : args.length = f.arity := by
      rw [f.arity_parameters, ← typed, List.length_map]
    have split : args.reverse ++ stack.drop f.arity = stack := by
      rw [List.reverse_reverse, List.take_append_drop]
    have called := perform_call vars (stack.drop f.arity) f args count
    rw [split] at called
    rw [called, ← List.map_drop]
    exact pushed_fits vars _ _ _ pc (f.call_delivers args typed number)
  · rw [if_neg checked] at fits
    cases fits

theorem store_fits (index : Nat) (v : Value)
    (fits : (Instruction.store index).after (vars.map (·.dataType)) (v.dataType :: types) = some left)
    (typed : stack.map (·.dataType) = types) :
    Fitting (vars.map (·.dataType)) [pc + 1] pc left (perform vars (v :: stack) (.store index)) := by
  simp only [Instruction.after, List.getElem?_map] at fits
  by_cases present : vars[index]?.map (·.dataType) = some v.dataType
  · rw [if_pos present] at fits
    cases fits
    obtain ⟨old, found, same⟩ := Option.map_eq_some_iff.mp present
    rw [perform_store vars stack index v old found same]
    exact ⟨typed, types_set vars index old v found same, .inr (List.mem_singleton.mpr rfl)⟩
  · rw [if_neg present] at fits
    cases fits

theorem binary_fits (op : BinaryOp) (t : DataType) (l r : Value)
    (fits : (Instruction.binary op t).after (vars.map (·.dataType)) (r.dataType :: l.dataType :: types) = some left)
    (typed : stack.map (·.dataType) = types) :
    Fitting (vars.map (·.dataType)) [pc + 1] pc left (perform vars (r :: l :: stack) (.binary op t)) := by
  simp only [Instruction.after] at fits
  by_cases checked : r.dataType = t ∧ l.dataType = t ∧ op.takes t = true
  · rw [if_pos checked] at fits
    cases fits
    obtain ⟨rightTyped, leftTyped, takes⟩ := checked
    rw [perform_binary vars stack op l r t leftTyped (fun _ => rightTyped), ← typed]
    apply pushed_fits vars stack _ _ pc
    rw [← leftTyped] at takes rightTyped ⊢
    exact op.apply_delivers l r takes rightTyped
  · rw [if_neg checked] at fits
    cases fits

theorem branch_fits (target : Option Nat) (a : Nat) (either : target = none ∨ target = some a) :
    Fitting (vars.map (·.dataType)) [a, pc + 1] pc (stack.map (·.dataType)) (.ok { stack, vars, target }) := by
  refine ⟨rfl, rfl, .inr ?_⟩
  rcases either with rfl | rfl
  · exact List.mem_cons_of_mem a List.mem_cons_self
  · exact List.mem_cons_self

theorem perform_fits (i : Instruction) (typed : stack.map (·.dataType) = types)
    (fits : i.after (vars.map (·.dataType)) types = some left) :
    Fitting (vars.map (·.dataType)) (i.successors pc) pc left (perform vars stack i) := by
  subst typed
  cases i with
  | push v =>
    cases fits
    exact pushed_fits vars stack (.ok v) v.dataType pc rfl
  | load index =>
    simp only [Instruction.after, List.getElem?_map] at fits
    obtain ⟨t, present, rfl⟩ := Option.map_eq_some_iff.mp fits
    obtain ⟨v, found, rfl⟩ := Option.map_eq_some_iff.mp present
    rw [perform_load vars stack index v found]
    exact pushed_fits vars stack (.ok v) v.dataType pc rfl
  | store index =>
    cases stack with
    | nil => cases fits
    | cons v stack => exact store_fits vars stack pc _ left index v fits rfl
  | duplicate =>
    cases stack with
    | nil => cases fits
    | cons v stack =>
      cases fits
      exact pushed_fits vars (v :: stack) (.ok v) v.dataType pc rfl
  | discard =>
    cases stack with
    | nil => cases fits
    | cons v stack =>
      cases fits
      exact ⟨rfl, rfl, .inr (List.mem_singleton.mpr rfl)⟩
  | cast t =>
    cases stack with
    | nil => cases fits
    | cons v stack =>
      cases fits
      exact pushed_fits vars stack (.ok (v.cast t)) t pc (v.dataType_cast t)
  | binary op t =>
    match stack with
    | [] => cases fits
    | [_] => cases fits
    | r :: l :: stack => exact binary_fits vars stack pc _ left op t l r fits rfl
  | negate t =>
    cases stack with
    | nil => cases fits
    | cons v stack =>
      simp only [List.map_cons, Instruction.after] at fits
      by_cases checked : v.dataType = t ∧ t ≠ .bool
      · rw [if_pos checked] at fits
        obtain ⟨rfl, number⟩ := checked
        cases fits
        rw [perform_negate vars stack v _ rfl]
        exact pushed_fits vars stack _ _ pc (v.negate_delivers number)
      · rw [if_neg checked] at fits
        cases fits
  | complement t =>
    cases stack with
    | nil => cases fits
    | cons v stack =>
      simp only [List.map_cons, Instruction.after] at fits
      by_cases checked : v.dataType = t ∧ t ≠ .real
      · rw [if_pos checked] at fits
        obtain ⟨rfl, bits⟩ := checked
        cases fits
        rw [perform_complement vars stack v _ rfl]
        exact pushed_fits vars stack _ _ pc (v.complement_delivers bits)
      · rw [if_neg checked] at fits
        cases fits
  | jump a =>
    cases fits
    exact ⟨rfl, rfl, .inr (List.mem_singleton.mpr rfl)⟩
  | jumpIfFalse a =>
    match stack with
    | [] => cases fits
    | .bool c :: stack =>
      cases fits
      rw [perform_jump_if_false]
      exact branch_fits vars stack pc _ a (by cases c <;> simp)
    | .int _ :: _ | .dint _ :: _ | .dword _ :: _ | .real _ :: _ => cases fits
  | jumpIfTrue a =>
    match stack with
    | [] => cases fits
    | .bool c :: stack =>
      cases fits
      rw [perform_jump_if_true]
      exact branch_fits vars stack pc _ a (by cases c <;> simp)
    | .int _ :: _ | .dint _ :: _ | .dword _ :: _ | .real _ :: _ => cases fits
  | call f => exact call_fits vars stack pc left f fits
  | nop =>
    cases fits
    exact ⟨rfl, rfl, .inr (List.mem_singleton.mpr rfl)⟩
  | halt =>
    cases fits
    exact ⟨rfl, rfl, .inl rfl⟩
  | illegal byte => cases fits

end Machine

end SoftPlc
