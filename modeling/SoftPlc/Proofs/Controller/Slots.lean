import SoftPlc.Controller.Basic
import SoftPlc.Proofs.Bytecode.Sound
import SoftPlc.Proofs.Debugger.Variables
import SoftPlc.Proofs.Store.Slots

set_option autoImplicit false

namespace SoftPlc

def Direction.variableClass : Direction → VariableClass
  | .input => .input
  | .output => .output

def Binding.Names (e : Binding) (vars : List Variable) : Prop :=
  ∃ v, vars[e.index]? = some v ∧ v.name = e.name ∧ v.dataType = e.dataType ∧
    v.variableClass = e.direction.variableClass

def Bindings.Fit (table : Bindings) (id : Nat) (vars : List Variable) : Prop :=
  ∀ e ∈ table, e.program = id → e.Names vars

structure SlotSound (table : Bindings) (id : Nat) (p : LogicProgram) (d : Debugger) : Prop where
  empty : p.bytecode = none → p.values = [] ∧ d.suspended = none
  sound : ∀ b, p.bytecode = some b → b.Sound
  values : ∀ b, p.bytecode = some b → Fits b.vars p.values
  frames : ∀ b frame, p.bytecode = some b → d.suspended = some frame → Fits b.vars frame.vars
  bindings : ∀ b, p.bytecode = some b → table.Fit id b.vars

theorem initial_fits (b : Bytecode) (sound : b.Sound) : Fits b.vars b.initialValues := by
  unfold Fits Bytecode.initialValues
  rw [List.map_map]
  exact List.map_congr_left sound.typed

section
variable (table : Bindings) (id : Nat) (p : LogicProgram) (d : Debugger)

theorem slot_sound_program (p' : LogicProgram) (slot : SlotSound table id p d) (bytecode : p'.bytecode = p.bytecode)
    (values : p'.values = p.values) : SlotSound table id p' d := by
  obtain ⟨empty, sound, fits, frames, bindings⟩ := slot
  rw [← bytecode, ← values] at empty
  rw [← bytecode] at sound fits frames bindings
  exact ⟨empty, sound, values ▸ fits, frames, bindings⟩

theorem slot_sound_debugger (d' : Debugger) (slot : SlotSound table id p d)
    (same : d'.suspended = d.suspended ∨ d'.suspended = none) : SlotSound table id p d' := by
  refine ⟨fun none => ⟨(slot.empty none).1, ?_⟩, slot.sound, slot.values, ?_, slot.bindings⟩
  · rcases same with same | gone
    · exact same.trans (slot.empty none).2
    · exact gone
  · intro b frame compiled suspended
    rcases same with same | gone
    · exact slot.frames b frame compiled (same.symm.trans suspended)
    · cases gone.symm.trans suspended

theorem slot_sound_table (table' : Bindings) (slot : SlotSound table id p d)
    (fewer : ∀ e ∈ table', e.program = id → e ∈ table) : SlotSound table' id p d :=
  { slot with bindings := fun b compiled e member own => slot.bindings b compiled e (fewer e member own) own }

theorem slot_sound_empty (uncompiled : p.bytecode = none) (values : p.values = []) (alone : d.suspended = none) :
    SlotSound table id p d := by
  have absent (b : Bytecode) (compiled : p.bytecode = some b) : False := by
    cases uncompiled.symm.trans compiled
  exact ⟨fun _ => ⟨values, alone⟩, fun b compiled => (absent b compiled).elim,
    fun b compiled => (absent b compiled).elim, fun b _ compiled => (absent b compiled).elim,
    fun b compiled => (absent b compiled).elim⟩

theorem slot_sound_installed (b : Bytecode) (sound : b.Sound) (compiled : p.bytecode = some b)
    (values : p.values = b.initialValues) (alone : d.suspended = none) (bound : table.Fit id b.vars) :
    SlotSound table id p d := by
  have only (b' : Bytecode) (found : p.bytecode = some b') : b' = b := Option.some.inj (found.symm.trans compiled)
  refine ⟨?_, ?_, ?_, ?_, ?_⟩
  · intro uncompiled
    cases uncompiled.symm.trans compiled
  · intro b' found
    exact only b' found ▸ sound
  · intro b' found
    rw [only b' found, values]
    exact initial_fits b sound
  · intro b' frame _ suspended
    cases alone.symm.trans suspended
  · intro b' found
    exact only b' found ▸ bound

end

def SlotsSound (table : Bindings) (programs : Slots LogicProgram) (debuggers : Slots Debugger) : Prop :=
  ∀ i : Fin slotCount, SlotSound table i (programs.get i) (debuggers.get i)

section
variable (table : Bindings) (programs : Slots LogicProgram) (debuggers : Slots Debugger) (i : Fin slotCount)
  (sound : SlotsSound table programs debuggers)
include sound

theorem slots_sound_program (p : LogicProgram) (slot : SlotSound table i p (debuggers.get i)) :
    SlotsSound table (programs.put i p) debuggers := by
  intro j
  by_cases same : i = j
  · subst same
    rw [Slots.get_put_self]
    exact slot
  · rw [Slots.get_put_other programs i j p same]
    exact sound j

theorem slots_sound_debugger (d : Debugger) (slot : SlotSound table i (programs.get i) d) :
    SlotsSound table programs (debuggers.put i d) := by
  intro j
  by_cases same : i = j
  · subst same
    rw [Slots.get_put_self]
    exact slot
  · rw [Slots.get_put_other debuggers i j d same]
    exact sound j

theorem slots_sound_table (table' : Bindings) (fewer : ∀ e ∈ table', e ∈ table) :
    SlotsSound table' programs debuggers :=
  fun j => slot_sound_table table j _ _ table' (sound j) fun e member _ => fewer e member

end

namespace Binding

theorem direction_class (k : VariableClass) (direction : Direction) (found : direction? k = some direction) :
    k = direction.variableClass := by
  cases k <;> cases found <;> rfl

theorem make_ok (id : Nat) (p : LogicProgram) (name : String) (target : Target) (e : Binding)
    (made : make id p name target = .ok e) :
    e.program = id ∧ check e.dataType e.direction e.target = .ok () ∧
      ∃ b, p.bytecode = some b ∧ e.Names b.vars := by
  unfold make at made
  split at made
  · cases made
  · rename_i b compiled
    split at made
    · cases made
    · rename_i index v found
      split at made
      · cases made
      · rename_i direction bindable
        obtain ⟨_, allowed, done⟩ := (bind_ok _ _ _).mp made
        cases done
        exact ⟨rfl, allowed, b, compiled, v, lookup_index b.vars _ index v found, rfl, rfl,
          direction_class _ direction bindable⟩

end Binding

namespace Bindings

theorem replace_mem (table : Bindings) (b e : Binding) (member : e ∈ table.replace b) : e ∈ table ∨ e = b := by
  rcases List.mem_append.mp member with old | new
  · exact .inl (List.mem_filter.mp old).1
  · exact .inr (List.mem_singleton.mp new)

theorem bind_either (table : Bindings) (id : Nat) (p : LogicProgram) (name : String) (target : Target) :
    (∃ e, Binding.make id p name target = .ok e ∧ table.bind id p name target = (.ok (), table.replace e)) ∨
      ∃ f, table.bind id p name target = (.error f, table) := by
  unfold bind
  cases made : Binding.make id p name target with
  | ok e => exact .inl ⟨e, rfl, rfl⟩
  | error f => exact .inr ⟨f, rfl⟩

theorem refresh_keeps (P : Bindings → Prop) (table : Bindings) (id : Nat) (p : LogicProgram)
    (cleared : P (table.clearProgram id))
    (next : ∀ start name target e, Binding.make id p name target = .ok e → P start → P (start.replace e)) :
    P (table.refresh id p) := by
  unfold refresh
  refine List.foldlRecOn _ _ cleared fun start holds b _ => ?_
  obtain ⟨e, made, bound⟩ | ⟨f, refused⟩ := start.bind_either id p b.name b.target
  · rw [bound]
    exact next start b.name b.target e made holds
  · rw [refused]
    exact holds

theorem refresh_mem (table : Bindings) (id : Nat) (p : LogicProgram) (e : Binding) (member : e ∈ table.refresh id p) :
    e.program ≠ id ∧ e ∈ table ∨ ∃ name target, Binding.make id p name target = .ok e := by
  revert e
  apply refresh_keeps (fun start => ∀ e ∈ start,
    e.program ≠ id ∧ e ∈ table ∨ ∃ name target, Binding.make id p name target = .ok e)
  · intro e cleared
    obtain ⟨inside, other⟩ := List.mem_filter.mp cleared
    exact .inl ⟨by simpa using other, inside⟩
  · intro start name target made new holds e inside
    rcases replace_mem start made e inside with before | rfl
    · exact holds e before
    · exact .inr ⟨name, target, new⟩

end Bindings

end SoftPlc
