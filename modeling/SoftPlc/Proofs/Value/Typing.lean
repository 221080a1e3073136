import SoftPlc.Value.Builtin

set_option autoImplicit false

namespace SoftPlc

def Fault.Arithmetical (f : Fault) : Prop :=
  f.kind = .divisionByZero ∨ f.kind = .illegalFunctionCall

def Delivers (t : DataType) : Except Fault Value → Prop
  | .ok v => v.dataType = t
  | .error f => f.Arithmetical

namespace Value

theorem negate_delivers (v : Value) (number : v.dataType ≠ .bool) : Delivers v.dataType v.negate := by
  cases v with
  | bool b => exact absurd rfl number
  | int n | dint n | dword n | real x => rfl

theorem complement_delivers (v : Value) (bits : v.dataType ≠ .real) :
    Delivers v.dataType v.complement := by
  cases v with
  | bool b | int n | dint n | dword n => rfl
  | real x => exact absurd rfl bits

theorem shift_count_fault (count : Value) (f : Fault) (failed : shiftCount count = .error f) :
    f.Arithmetical := by
  unfold shiftCount at failed
  split at failed
  · cases failed
  · cases failed
    exact .inr rfl

theorem shift_left_delivers (v count : Value) (integer : v.dataType.isInteger = true) :
    Delivers v.dataType (v.shiftLeft count) := by
  unfold shiftLeft
  cases places : shiftCount count with
  | error f => exact shift_count_fault count f places
  | ok places =>
    cases v with
    | int n | dint n | dword n => rfl
    | bool b | real x => cases integer

theorem shift_right_delivers (v count : Value) (integer : v.dataType.isInteger = true) :
    Delivers v.dataType (v.shiftRight count) := by
  unfold shiftRight
  cases places : shiftCount count with
  | error f => exact shift_count_fault count f places
  | ok places =>
    cases v with
    | int n | dint n | dword n => rfl
    | bool b | real x => cases integer

theorem delivers_if_zero (zero : Prop) [Decidable zero] (f : Fault) (v : Value)
    (kind : f.kind = .divisionByZero) :
    Delivers v.dataType (if zero then .error f else .ok v) := by
  split
  · exact .inl kind
  · rfl

theorem divide_delivers (l r : Value) (same : r.dataType = l.dataType) (number : l.dataType ≠ .bool) :
    Delivers l.dataType (l.divide r) := by
  cases l <;> cases r <;> cases same
  case bool => exact absurd rfl number
  case real l r => rfl
  case int l r => exact delivers_if_zero (r = 0) _ (.int (l / r)) rfl
  case dint l r => exact delivers_if_zero (r = 0) _ (.dint (l / r)) rfl
  case dword l r => exact delivers_if_zero (r = 0) _ (.dword (l / r)) rfl

theorem modulo_delivers (l r : Value) (same : r.dataType = l.dataType)
    (integer : l.dataType.isInteger = true) : Delivers l.dataType (l.modulo r) := by
  cases l <;> cases r <;> cases same
  case bool => cases integer
  case real l r => cases integer
  case int l r => exact delivers_if_zero (r = 0) _ (.int (l % r)) rfl
  case dint l r => exact delivers_if_zero (r = 0) _ (.dint (l % r)) rfl
  case dword l r => exact delivers_if_zero (r = 0) _ (.dword (l % r)) rfl

theorem order_same (l r : Value) (same : r.dataType = l.dataType) : ∃ o, l.order r = .ok o := by
  cases l <;> cases r <;> cases same <;> exact ⟨_, rfl⟩

theorem is_below_same (l r : Value) (same : r.dataType = l.dataType) : ∃ b, l.isBelow r = .ok b := by
  obtain ⟨o, ordered⟩ := order_same l r same
  exact ⟨_, by rw [isBelow, ordered]; rfl⟩

end Value

namespace BinaryOp

def takes (op : BinaryOp) (t : DataType) : Bool :=
  match op with
  | .add | .subtract | .multiply | .divide => t != .bool
  | .modulo | .shiftLeft | .shiftRight => t.isInteger
  | .and | .or | .xor => t != .real
  | .equal | .notEqual | .less | .lessEqual | .greater | .greaterEqual => true

def resultType (op : BinaryOp) (t : DataType) : DataType := if op.isComparison then .bool else t

theorem apply_delivers (op : BinaryOp) (l r : Value) (takes : op.takes l.dataType = true)
    (same : r.dataType = l.dataType) : Delivers (op.resultType l.dataType) (op.apply l r) := by
  cases op with
  | divide => exact Value.divide_delivers l r same (by simpa [BinaryOp.takes] using takes)
  | modulo => exact Value.modulo_delivers l r same takes
  | shiftLeft => exact Value.shift_left_delivers l r takes
  | shiftRight => exact Value.shift_right_delivers l r takes
  | equal | notEqual | less | lessEqual | greater | greaterEqual =>
    obtain ⟨o, ordered⟩ := Value.order_same l r same
    simp only [apply, ordered]
    rfl
  | add | subtract | multiply =>
    have number : l.dataType ≠ .bool := by simpa [BinaryOp.takes] using takes
    cases l <;> cases r <;> cases same <;> first | rfl | exact absurd rfl number
  | and | or | xor =>
    have bits : l.dataType ≠ .real := by simpa [BinaryOp.takes] using takes
    cases l <;> cases r <;> cases same <;> first | rfl | exact absurd rfl bits

end BinaryOp

namespace Builtin

def parameters : Builtin → List DataType
  | .abs t => [t]
  | .min t | .max t => [t, t]
  | .limit t => [t, t, t]
  | .select t => [.bool, t, t]
  | .sqrt | .sine | .cosine | .tangent | .round | .truncate | .floor | .ceiling => [.real]

def resultType : Builtin → DataType
  | .abs t | .min t | .max t | .limit t | .select t => t
  | .sqrt | .sine | .cosine | .tangent => .real
  | .round | .truncate | .floor | .ceiling => .int

-- These equations are made once here. The proofs below would otherwise wait for them together.
attribute [local simp] apply

theorem arity_parameters (f : Builtin) : f.arity = f.parameters.length := by
  cases f <;> rfl

theorem typed_arguments_agree (f : Builtin) (args : List Value) (t : DataType)
    (typed : args.map (·.dataType) = f.parameters) (generic : f.dataType? = some t) :
    (f.typedArguments args).any (·.dataType != t) = false := by
  have types : (f.typedArguments args).any (·.dataType != t) =
      ((f.typedArguments args).map (·.dataType)).any (· != t) := by
    rw [List.any_map]
    rfl
  rw [types]
  cases f with
  | abs | min | max | limit =>
    cases generic
    simp [typedArguments, typed, parameters]
  | select =>
    cases generic
    simp [typedArguments, typed, parameters]
  | sqrt | sine | cosine | tangent | round | truncate | floor | ceiling => cases generic

theorem call_apply (f : Builtin) (args : List Value) (typed : args.map (·.dataType) = f.parameters) :
    f.call args = f.apply args := by
  have count : args.length = f.arity := by
    rw [arity_parameters, ← typed, List.length_map]
  simp only [call, count, ne_eq, not_true_eq_false, if_false]
  cases generic : f.dataType? with
  | none => rfl
  | some t => simp only [typed_arguments_agree f args t typed generic, Bool.false_eq_true, if_false]

theorem abs_delivers (t : DataType) (v : Value) (typed : v.dataType = t) (number : t ≠ .bool) :
    Delivers t ((abs t).apply [v]) := by
  subst typed
  obtain ⟨b, below⟩ := Value.is_below_same v (.zero v.dataType) (Value.dataType_zero _)
  cases v with
  | bool b => exact absurd rfl number
  | real x => rfl
  | int n | dint n | dword n =>
    simp only [apply, below]
    cases b with
    | false => rfl
    | true => exact Value.negate_delivers _ number

theorem limit_delivers (t : DataType) (low v high : Value) (lowTyped : low.dataType = t)
    (typed : v.dataType = t) (highTyped : high.dataType = t) :
    Delivers t ((limit t).apply [low, v, high]) := by
  obtain ⟨under, first⟩ := Value.is_below_same v low (lowTyped.trans typed.symm)
  obtain ⟨above, second⟩ := Value.is_below_same high v (typed.trans highTyped.symm)
  simp only [apply, first, second]
  cases under with
  | true => exact lowTyped
  | false =>
    cases above with
    | true => exact highTyped
    | false => exact typed

theorem extremum_delivers (t : DataType) (a b : Value) (aTyped : a.dataType = t)
    (bTyped : b.dataType = t) :
    Delivers t ((min t).apply [a, b]) ∧ Delivers t ((max t).apply [a, b]) := by
  obtain ⟨less, first⟩ := Value.is_below_same b a (aTyped.trans bTyped.symm)
  obtain ⟨more, second⟩ := Value.is_below_same a b (bTyped.trans aTyped.symm)
  simp only [apply, first, second]
  exact ⟨by cases less <;> assumption, by cases more <;> assumption⟩

theorem select_delivers (t : DataType) (choice a b : Value) (bool : choice.dataType = .bool)
    (aTyped : a.dataType = t) (bTyped : b.dataType = t) :
    Delivers t ((select t).apply [choice, a, b]) := by
  cases choice <;> cases bool
  rename_i second
  cases second with
  | false => exact aTyped
  | true => exact bTyped

theorem sqrt_delivers (x : Numeric.Single) : Delivers .real (sqrt.apply [.real x]) := by
  by_cases negative : x.less Numeric.Single.zero = true
  · simp only [apply, expectReal, bind, Except.bind, negative, if_true]
    exact .inr rfl
  · simp only [apply, expectReal, bind, Except.bind, negative, Bool.false_eq_true, if_false]
    rfl

-- ABS is never made for BOOL; the other functions are fine in every type.
theorem call_delivers (f : Builtin) (args : List Value) (typed : args.map (·.dataType) = f.parameters)
    (number : f ≠ .abs .bool) : Delivers f.resultType (f.call args) := by
  rw [call_apply f args typed]
  cases f with
  | abs t =>
    obtain ⟨v, rfl, vTyped⟩ := List.map_eq_singleton_iff.mp typed
    exact abs_delivers t v vTyped (by rintro rfl; exact number rfl)
  | min t =>
    obtain ⟨a, _, rfl, aTyped, rest⟩ := List.map_eq_cons_iff.mp typed
    obtain ⟨b, rfl, bTyped⟩ := List.map_eq_singleton_iff.mp rest
    exact (extremum_delivers t a b aTyped bTyped).1
  | max t =>
    obtain ⟨a, _, rfl, aTyped, rest⟩ := List.map_eq_cons_iff.mp typed
    obtain ⟨b, rfl, bTyped⟩ := List.map_eq_singleton_iff.mp rest
    exact (extremum_delivers t a b aTyped bTyped).2
  | limit t =>
    obtain ⟨low, _, rfl, lowTyped, rest⟩ := List.map_eq_cons_iff.mp typed
    obtain ⟨v, _, rfl, vTyped, rest⟩ := List.map_eq_cons_iff.mp rest
    obtain ⟨high, rfl, highTyped⟩ := List.map_eq_singleton_iff.mp rest
    exact limit_delivers t low v high lowTyped vTyped highTyped
  | select t =>
    obtain ⟨choice, _, rfl, bool, rest⟩ := List.map_eq_cons_iff.mp typed
    obtain ⟨a, _, rfl, aTyped, rest⟩ := List.map_eq_cons_iff.mp rest
    obtain ⟨b, rfl, bTyped⟩ := List.map_eq_singleton_iff.mp rest
    exact select_delivers t choice a b bool aTyped bTyped
  | sqrt =>
    obtain ⟨v, rfl, real⟩ := List.map_eq_singleton_iff.mp typed
    cases v <;> cases real
    exact sqrt_delivers _
  | sine | cosine | tangent | round | truncate | floor | ceiling =>
    obtain ⟨v, rfl, real⟩ := List.map_eq_singleton_iff.mp typed
    cases v <;> cases real
    rfl

end Builtin

namespace Signature

def Told : Signature → Prop
  | .numeric make arity => ∀ t, (make t).parameters = List.replicate arity t ∧ (make t).resultType = t
  | .real f => f.parameters = [.real] ∧ f.resultType = .real
  | .integer f => f.parameters = [.real] ∧ f.resultType = .int
  | .select | .convert _ => True

theorem of_name_told (name : String) (s : Signature) (found : ofName? name = some s) : s.Told := by
  unfold ofName? at found
  split at found <;> cases found
  all_goals first | exact fun _ => ⟨rfl, rfl⟩ | exact ⟨rfl, rfl⟩ | exact trivial

end Signature

end SoftPlc
