import SoftPlc.Proofs.Configuration.Restored
import SoftPlc.Proofs.Controller.Calls
import SoftPlc.Proofs.Controller.Turns

set_option autoImplicit false

namespace SoftPlc

theorem Target.data_type_read (target : Target) (t : DataType) (r : Registers) :
    (target.read t r).dataType = t := by
  cases target <;> simp [read]

theorem Bindings.inputs_fit (table : Bindings) (id : Nat) (r : Registers) (vars : List Variable) (values : List Value)
    (bound : table.Fit id vars) (fits : Fits vars values) : Fits vars (table.readInputs id r values) := by
  have each (own : Bindings) (start : List Value) (known : ∀ e ∈ own, e ∈ table ∧ e.program = id)
      (typed : Fits vars start) :
      Fits vars (own.foldl (fun values b => values.set b.index (b.target.read b.dataType r)) start) := by
    induction own generalizing start with
    | nil => exact typed
    | cons e rest ih =>
      obtain ⟨member, mine⟩ := known e List.mem_cons_self
      obtain ⟨v, declared, _, same, _⟩ := bound e member mine
      apply ih _ (fun f later => known f (List.mem_cons_of_mem e later))
      exact fits_set vars start e.index v _ typed declared ((e.target.data_type_read e.dataType r).trans same.symm)
  refine each _ values (fun e member => ?_) fits
  obtain ⟨inside, chosen⟩ := List.mem_filter.mp member
  exact ⟨inside, by simp at chosen; exact chosen.1⟩

theorem Bindings.inputs_empty (table : Bindings) (id : Nat) (r : Registers) : table.readInputs id r [] = [] := by
  unfold readInputs
  induction table.ofProgram id .input with
  | nil => rfl
  | cons e rest ih => exact ih

theorem slot_sound_values (table : Bindings) (id : Nat) (p p' : LogicProgram) (d : Debugger)
    (slot : SlotSound table id p d) (bytecode : p'.bytecode = p.bytecode) (empty : p.bytecode = none → p'.values = [])
    (fits : ∀ b, p.bytecode = some b → Fits b.vars p'.values) : SlotSound table id p' d := by
  obtain ⟨none, sound, _, frames, bindings⟩ := slot
  rw [← bytecode] at none sound frames bindings empty fits
  exact ⟨fun uncompiled => ⟨empty uncompiled, (none uncompiled).2⟩, sound, fits, frames, bindings⟩

namespace Controller

variable (c : Controller)

theorem read_inputs_sound (r : Registers) (sound : c.Sound) : (c.readInputs r).Sound := by
  refine ⟨sound.sources, fun i => ?_⟩
  have slot := sound.slots i
  have read : SlotSound c.bindings i
      { c.programs.get i with values := c.bindings.readInputs i r (c.programs.get i).values } (c.debuggers.get i) := by
    refine slot_sound_values _ i (c.programs.get i) _ _ slot rfl ?_ ?_
    · intro uncompiled
      simp only [(slot.empty uncompiled).1]
      exact c.bindings.inputs_empty i r
    · intro b compiled
      exact c.bindings.inputs_fit i r b.vars _ (slot.bindings b compiled) (slot.values b compiled)
  simpa [readInputs] using read

theorem complete_sound (i : Fin slotCount) (b : Bytecode) (values : List Value) (us : UInt32) (r : Registers)
    (sound : c.Sound) (compiled : (c.programs.get i).bytecode = some b) (fits : Fits b.vars values) :
    (c.complete i b values us r).1.Sound := by
  refine ⟨sound.sources, slots_sound_program _ _ _ i sound.slots _ ?_⟩
  refine slot_sound_values _ i (c.programs.get i) _ _ (sound.slots i) rfl ?_ ?_
  · intro uncompiled
    cases uncompiled.symm.trans compiled
  · intro b' found
    cases compiled.symm.trans found
    exact fits

theorem count_fault_sound (i : Fin slotCount) (f : Fault) (sound : c.Sound) : (c.countFault i f).Sound :=
  c.tended_sound _ (c.tended_set_program i _ ⟨rfl, rfl, rfl⟩) sound

theorem ran_fits (i : Fin slotCount) (b : Bytecode) (sound : c.Sound) (compiled : (c.programs.get i).bytecode = some b) :
    Fits b.vars (c.ran i b).2.1.vars ∧ ∀ frame, (c.ran i b).1.suspended = some frame → Fits b.vars frame.vars := by
  have slot := sound.slots i
  obtain ⟨started, given⟩ := Debugger.next_machine_types b (c.programs.get i).values (c.debuggers.get i)
    (initial_fits b (slot.sound b compiled)) (fun frame => slot.frames b frame compiled)
  obtain ⟨types, frames⟩ := Debugger.run_types b c.settings.maxSteps
    ((c.debuggers.get i).nextMachine b (c.programs.get i).values).1 ((c.debuggers.get i).nextMachine b (c.programs.get i).values).2
  refine ⟨types.trans started, fun frame suspended => ?_⟩
  rcases frames frame suspended with before | here
  · cases given.symm.trans before
  · exact here.trans started

theorem run_bytecode_sound (i : Fin slotCount) (b : Bytecode) (r : Registers) (sound : c.Sound)
    (compiled : (c.programs.get i).bytecode = some b) : (c.runBytecode i b r).2.1.Sound := by
  obtain ⟨left, frames⟩ := c.ran_fits i b sound compiled
  have watched : SlotSound c.bindings i (c.programs.get i) (c.ran i b).1 := by
    refine { sound.slots i with empty := fun uncompiled => ?_, frames := fun b' frame found suspended => ?_ }
    · cases uncompiled.symm.trans compiled
    · cases compiled.symm.trans found
      exact frames frame suspended
  have after : (c.behindRun i b).Sound := ⟨sound.sources, slots_sound_debugger _ _ _ i sound.slots _ watched⟩
  rcases c.run_bytecode_cases i b r with ⟨_, answer⟩ | ⟨f, _, answer⟩ | ⟨_, answer⟩
  · simp only [answer]
    exact complete_sound _ i b _ _ r after compiled left
  · simp only [answer]
    exact count_fault_sound _ i f after
  · simp only [answer]
    exact after

theorem run_slot_sound (i : Fin slotCount) (r : Registers) (sound : c.Sound) : (c.runSlot i r).2.1.Sound := by
  rcases c.run_slot_cases i r with ⟨answer, _⟩ | ⟨b, compiled, _, ⟨_, answer⟩ | ⟨_, answer⟩⟩
  · simp only [answer]
    exact sound
  · simp only [answer]
    exact sound
  · simp only [answer]
    exact c.run_bytecode_sound i b r sound compiled

theorem run_slots_sound (slots : List (Fin slotCount)) (r : Registers) (sound : c.Sound) :
    (c.runSlots r slots).2.1.Sound := by
  induction slots generalizing c r with
  | nil => exact sound
  | cons i rest ih => exact ih _ _ (c.run_slot_sound i r sound)

theorem begun_sound (now : UInt64) (r : Registers) (sound : c.Sound) :
    (readInputs { c with lastRun := now, quota := 0 } r).Sound :=
  read_inputs_sound _ r ⟨sound.sources, sound.slots⟩

theorem turns_sound (now : UInt64) (r : Registers) (sound : c.Sound) : (c.turns now r).2.1.Sound := by
  unfold turns
  exact run_slots_sound _ (List.finRange slotCount) r (c.begun_sound now r sound)

theorem cycle_at_sound (now : UInt64) (r : Registers) (sound : c.Sound) : (c.cycleAt now r).2.1.Sound := by
  have turned := c.turns_sound now r sound
  obtain ⟨_, _, _, _, answer⟩ := c.cycle_at_turns now r
  simp only [answer]
  generalize (c.turns now r).2.1 = next at turned ⊢
  exact ⟨turned.sources, turned.slots⟩

theorem tick_sound (r : Registers) (sound : c.Sound) : (c.tick r).2.1.Sound := by
  have read : c.readClock.2.Sound := ⟨sound.sources, sound.slots⟩
  rcases c.tick_cases r with ⟨_, answer⟩ | ⟨_, answer⟩
  · simp only [answer]
    exact read
  · simp only [answer]
    exact c.readClock.2.cycle_at_sound c.clock.now r read

end Controller

end SoftPlc

namespace SoftPlc.Controller

theorem after_sound (c : Controller) (call : Call) (sound : c.Sound) : (c.after call).Sound := by
  by_cases tends : call.Tends
  · exact c.tended_sound _ (c.after_tended call tends) sound
  · cases call with
    | compile id => exact c.compile_sound id sound
    | delete id => exact c.delete_sound id sound
    | bind id name target => exact c.bind_sound id name target sound
    | unbind id name => exact c.unbind_sound id name sound
    | compactExports => exact ⟨sound.sources, sound.slots⟩
    | load blob => exact c.load_sound blob sound
    | tick r => exact c.tick_sound r sound
    | _ => exact absurd trivial tends

theorem reachable_sound (c : Controller) (reachable : Reachable c) : c.Sound := by
  induction reachable with
  | initial settings clock => exact sound_initial settings clock
  | after c call _ ih => exact c.after_sound call ih

end SoftPlc.Controller
