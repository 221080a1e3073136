import SoftPlc.Machine.Basic
import SoftPlc.Proofs.Compile.Inversion

set_option autoImplicit false

namespace SoftPlc

def Fits (vars : List Variable) (store : List Value) : Prop :=
  store.map (·.dataType) = vars.map (·.dataType)

theorem lookup_index (vars : List Variable) (name : String) (i : Nat) (v : Variable)
    (found : Variable.lookup? name vars = some (i, v)) : vars[i]? = some v := by
  obtain ⟨⟨w, j⟩, first, same⟩ := Option.map_eq_some_iff.mp found
  cases same
  exact List.mem_zipIdx_iff_getElem?.mp (List.mem_of_find?_eq_some first)

theorem fits_get (vars : List Variable) (store : List Value) (i : Nat) (v : Variable)
    (fits : Fits vars store) (found : vars[i]? = some v) :
    ∃ x, store[i]? = some x ∧ x.dataType = v.dataType := by
  have types := congrArg (·[i]?) fits
  simp only [List.getElem?_map, found, Option.map_some] at types
  exact Option.map_eq_some_iff.mp types

theorem types_set (store : List Value) (i : Nat) (old x : Value) (found : store[i]? = some old)
    (same : old.dataType = x.dataType) :
    (store.set i x).map (·.dataType) = store.map (·.dataType) := by
  have present : (store.map (·.dataType))[i]? = some x.dataType := by
    rw [List.getElem?_map, found, Option.map_some, same]
  obtain ⟨_, value⟩ := List.getElem?_eq_some_iff.mp present
  rw [List.map_set, ← value, List.set_getElem_self]

theorem fits_set (vars : List Variable) (store : List Value) (i : Nat) (v : Variable) (x : Value)
    (fits : Fits vars store) (found : vars[i]? = some v) (typed : x.dataType = v.dataType) :
    Fits vars (store.set i x) := by
  obtain ⟨old, there, same⟩ := fits_get vars store i v fits found
  exact (types_set store i old x there (same.trans typed.symm)).trans fits

namespace Machine

theorem start_values_types (initial values : List Value) :
    (startValues initial values).map (·.dataType) = initial.map (·.dataType) := by
  induction initial generalizing values with
  | nil => cases values <;> rfl
  | cons first rest ih =>
    cases values with
    | nil => rfl
    | cons v values =>
      simp only [startValues, List.map_cons, ih]
      split <;> simp_all

end Machine

namespace Compile

theorem initial_value_typed (d : Declaration) (v : Value) (compiled : initialValue d = .ok v) :
    v.dataType = d.dataType := by
  unfold initialValue at compiled
  split at compiled
  · simp only [bind_ok, refuse_ok] at compiled
    obtain ⟨literal, _, _, done⟩ := compiled
    cases done
    exact Value.dataType_cast literal d.dataType
  · split at compiled
    · simp [failAt] at compiled
    · cases compiled
      exact Value.dataType_zero d.dataType

theorem declare_ok (before : List Variable) (d : Declaration) (v : Variable)
    (compiled : declare before d = .ok v) :
    before.length < Bytecode.maxVariables ∧ v.name = d.name ∧ v.dataType = d.dataType ∧
      v.initial.dataType = v.dataType := by
  simp only [declare, bind_ok, refuse_ok] at compiled
  obtain ⟨_, room, initial, initialOk, done⟩ := compiled
  cases done
  exact ⟨by omega, rfl, rfl, initial_value_typed d initial initialOk⟩

theorem declare_all_typed (before vars : List Variable) (ds : List Declaration)
    (compiled : declareAll before ds = .ok vars)
    (typed : ∀ v ∈ before, v.initial.dataType = v.dataType) :
    ∀ v ∈ vars, v.initial.dataType = v.dataType := by
  induction ds generalizing before with
  | nil =>
    cases compiled
    exact typed
  | cons d rest ih =>
    simp only [declareAll, bind_ok, with_line_ok] at compiled
    obtain ⟨v, declared, others⟩ := compiled
    apply ih (before ++ [v]) others
    intro w member
    rcases List.mem_append.mp member with old | new
    · exact typed w old
    · rw [List.mem_singleton.mp new]
      exact (declare_ok before d v declared).2.2.2

theorem compile_ok (p : SourceProgram) (b : Bytecode) (compiled : p.compile = .ok b) :
    ∃ items, declareAll [] p.declarations = .ok b.vars ∧ block b.vars 0 0 p.body = .ok items ∧
      items.length + 1 ≤ Bytecode.maxInstructions ∧ b.name = p.name ∧
      b.code = items.map (·.instruction) ++ [.halt] := by
  simp only [SourceProgram.compile, bind_ok] at compiled
  obtain ⟨vars, declared, items, body, _, room, done⟩ := compiled
  cases done
  refine ⟨items, declared, body, ?_, rfl, rfl⟩
  unfold checkRoom at room
  split at room
  · assumption
  · cases room

end Compile

theorem start_fits (p : SourceProgram) (b : Bytecode) (values : List Value)
    (compiled : p.compile = .ok b) : Fits b.vars (Machine.start b values).vars := by
  obtain ⟨_, declared, _⟩ := Compile.compile_ok p b compiled
  have typed := Compile.declare_all_typed [] b.vars p.declarations declared (by simp)
  calc (Machine.startValues b.initialValues values).map (·.dataType)
      = b.initialValues.map (·.dataType) := Machine.start_values_types b.initialValues values
    _ = b.vars.map (·.dataType) := by
      rw [Bytecode.initialValues, List.map_map]
      exact List.map_congr_left typed

end SoftPlc
