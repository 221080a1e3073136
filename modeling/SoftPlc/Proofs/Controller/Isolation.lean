import SoftPlc.Proofs.Controller.Cells
import SoftPlc.Proofs.Controller.Sweep

set_option autoImplicit false

namespace SoftPlc

namespace Value

theorem of_words_upper (t : DataType) (low high : UInt16) : ofWords t low high = ofWords t low (upperWord t high) := by
  have lower (high : UInt16) : (low.toUInt32 ||| high.toUInt32 <<< 16).toUInt16 = low := by
    rw [← UInt16.toBitVec_inj]
    apply BitVec.eq_of_getLsbD_eq
    intro i inside
    simp [inside]
  cases t with
  | bool | int => simp only [ofWords, ofBits, lower]
  | dint | dword | real => rfl

end Value

namespace Target

theorem words_same (t : DataType) (a : UInt16) (x y : UInt16 → UInt16) (lower : x a = y a)
    (upper : t.registers = 2 → ∀ h, next? a = some h → x h = y h) :
    Value.ofWords t (x a) (((next? a).map x).getD 0) = Value.ofWords t (y a) (((next? a).map y).getD 0) := by
  rw [Value.of_words_upper, Value.of_words_upper t (y a), lower]
  unfold Value.upperWord
  by_cases two : t.registers = 2
  · cases behind : next? a with
    | none => rfl
    | some h => simp only [Option.map_some, upper two h behind]
  · simp only [if_neg two]

theorem read_same (target : Target) (t : DataType) (r s : Registers)
    (same : ∀ cell ∈ target.cells t, r.SameAt s cell) : target.read t r = target.read t s := by
  cases target with
  | coil a =>
    have here : r.coilAt a = s.coilAt a := same (.coil a) List.mem_cons_self
    simp only [read, here]
  | discrete a =>
    have here : r.discreteAt a = s.discreteAt a := same (.discrete a) List.mem_cons_self
    simp only [read, here]
  | holding a =>
    refine words_same t a r.holdingAt s.holdingAt (same (.holding a) List.mem_cons_self) fun two h behind => ?_
    exact same (.holding h) (by simp [cells, two, behind])
  | input a =>
    refine words_same t a r.inputAt s.inputAt (same (.input a) List.mem_cons_self) fun two h behind => ?_
    exact same (.input h) (by simp [cells, two, behind])

end Target

namespace Controller

def ProgramRun.outcome : ProgramRun → Debugger.Outcome
  | .completed _ => .completed
  | .faulted f => .faulted f
  | .paused => .paused

end Controller

-- Two programs that a cycle treats alike. Of the statistics these are the counts: times are not asked
-- to be the same and do not come out the same.
structure LogicProgram.Alike (p q : LogicProgram) : Prop where
  bytecode : p.bytecode = q.bytecode
  values : p.values = q.values
  enabled : p.enabled = q.enabled
  runs : p.statistics.runs.count = q.statistics.runs.count
  errors : p.statistics.errors = q.statistics.errors
  lastError : p.lastError = q.lastError

namespace Slot

open Controller (ProgramRun)

variable (settings : Settings) (us vs : UInt32)

theorem reported_outcome (outcome : Debugger.Outcome) : (reported us outcome).outcome = outcome := by
  cases outcome <;> rfl

theorem settle_alike (p q : LogicProgram) (alike : p.Alike q) (m : Machine) (interval : UInt32)
    (outcome : Debugger.Outcome) : (settle p m us interval outcome).Alike (settle q m vs interval outcome) := by
  obtain ⟨bytecode, values, enabled, runs, errors, lastError⟩ := alike
  cases outcome with
  | completed => exact ⟨bytecode, rfl, enabled, congrArg (· + 1) runs, errors, lastError⟩
  | faulted f => exact ⟨bytecode, values, enabled, runs, congrArg (· + 1) errors, rfl⟩
  | paused => exact ⟨bytecode, values, enabled, runs, errors, lastError⟩

-- What a turn comes to does not hang on what sets two slots apart that are alike, or on time.
theorem turn_alike (s t : Slot) (program : s.program.Alike t.program) (debugger : s.debugger = t.debugger) :
    (s.turn settings us).1.map ProgramRun.outcome = (t.turn settings vs).1.map ProgramRun.outcome ∧
      (s.turn settings us).2.debugger = (t.turn settings vs).2.debugger ∧
      (s.turn settings us).2.program.Alike (t.turn settings vs).2.program := by
  have ran (b : Bytecode) : s.run settings b = t.run settings b := by
    unfold run
    rw [debugger, program.values]
  unfold turn
  rw [← program.bytecode, ← program.enabled, ← debugger]
  cases s.program.bytecode with
  | none => exact ⟨rfl, debugger, program⟩
  | some b =>
    cases s.program.enabled with
    | false => exact ⟨rfl, debugger, program⟩
    | true =>
      cases s.debugger.isPaused with
      | true => exact ⟨rfl, debugger, program⟩
      | false =>
        simp only [afterRun, ran, reported_outcome, Option.map_some, Bool.not_true, Bool.false_eq_true, if_false]
        exact ⟨trivial, trivial, settle_alike us vs _ _ program _ _ _⟩

end Slot

namespace Controller

-- Two controllers, each with its registers, that are the same as far as one slot can tell. The other
-- slots may hold what they like, and be bound to what they like.
structure Alike (i : Fin slotCount) (c d : Controller) (r s : Registers) : Prop where
  settings : c.settings = d.settings
  now : c.clock.now = d.clock.now
  lastRun : c.lastRun = d.lastRun
  program : (c.programs.get i).Alike (d.programs.get i)
  debugger : c.debuggers.get i = d.debuggers.get i
  inputs : c.bindings.ofProgram i .input = d.bindings.ofProgram i .input
  cells : ∀ e ∈ c.bindings.ofProgram i .input, ∀ cell ∈ e.target.cells e.dataType, r.SameAt s cell

section
variable (i : Fin slotCount) (c d : Controller) (r s : Registers) (alike : Alike i c d r s)
include alike

theorem read_inputs_alike : ((c.readInputs r).slot i).program.Alike ((d.readInputs s).slot i).program := by
  have values : c.bindings.readInputs i r (c.programs.get i).values = d.bindings.readInputs i s (d.programs.get i).values := by
    unfold Bindings.readInputs
    rw [← alike.inputs, ← alike.program.values]
    refine List.foldl_ext _ _ _ fun values e member => ?_
    rw [e.target.read_same e.dataType r s (alike.cells e member)]
  simp only [slot, readInputs, Slots.get_map_idx]
  exact { alike.program with values }

theorem due_alike : c.Due ↔ d.Due := by
  unfold Due
  rw [alike.settings, alike.now, alike.lastRun]

-- A cycle runs in both or in neither. The slot's part of the report, its values, its debugger, its
-- counts and its last error come out the same, whatever the other programs were, did and wrote.
theorem cycles_are_isolated :
    (c.tick r).1.isSome = (d.tick s).1.isSome ∧
      ((c.tick r).1.map fun report => (runsOf i report.runs).map ProgramRun.outcome) =
        ((d.tick s).1.map fun report => (runsOf i report.runs).map ProgramRun.outcome) ∧
      ((c.tick r).2.1.programs.get i).values = ((d.tick s).2.1.programs.get i).values ∧
      (c.tick r).2.1.debuggers.get i = (d.tick s).2.1.debuggers.get i ∧
      ((c.tick r).2.1.programs.get i).statistics.runs.count = ((d.tick s).2.1.programs.get i).statistics.runs.count ∧
      ((c.tick r).2.1.programs.get i).statistics.errors = ((d.tick s).2.1.programs.get i).statistics.errors ∧
      ((c.tick r).2.1.programs.get i).lastError = ((d.tick s).2.1.programs.get i).lastError := by
  by_cases due : c.Due
  · obtain ⟨report, after, left, fired⟩ := c.tick_due r due
    obtain ⟨report', after', left', fired'⟩ := d.tick_due s ((due_alike i c d r s alike).mp due)
    obtain ⟨us, runs, slot⟩ := c.tick_turn i r left report after fired
    obtain ⟨vs, runs', slot'⟩ := d.tick_turn i s left' report' after' fired'
    obtain ⟨outcome, debugger, program⟩ := Slot.turn_alike c.settings us vs _ _ (read_inputs_alike i c d r s alike) alike.debugger
    rw [← alike.settings] at runs' slot'
    rw [← slot, ← slot'] at debugger program
    have shown : (runsOf i report.runs).map ProgramRun.outcome = (runsOf i report'.runs).map ProgramRun.outcome := by
      rw [runs, runs', ← Option.toList_map, ← Option.toList_map, outcome]
    rw [fired, fired']
    exact ⟨rfl, congrArg some shown, program.values, debugger, program.runs, program.errors, program.lastError⟩
  · have early : ¬ d.Due := fun other => due ((due_alike i c d r s alike).mpr other)
    rw [c.tick_early r due, d.tick_early s early]
    have program := alike.program
    exact ⟨rfl, rfl, program.values, alike.debugger, program.runs, program.errors, program.lastError⟩

end

def secondSlot : Fin slotCount := ⟨1, by decide⟩

def counting : Controller where
  programs := (Controller.programs {}).put secondSlot
    { name := "Counter"
      enabled := true
      bytecode := some
        { name := none
          code := [.load 0, .push (.int 1), .binary .add .int, .store 1, .halt]
          vars :=
            [{ name := "X", dataType := .int, variableClass := .input, exported := false, initial := .int 0 },
              { name := "Y", dataType := .int, variableClass := .ordinary, exported := false, initial := .int 0 }] }
      values := [.int 0, .int 0] }
  bindings := [⟨1, "X", 0, .int, .input, .holding 5⟩]
  clock := .steady 20000 0

-- The same slot beside one in front of it that drives the register it reads, and under a clock that runs.
def countingBeside : Controller where
  programs := counting.programs.put firstSlot
    { name := "Driver"
      enabled := true
      bytecode := some
        { name := none
          code := [.push (.int 9), .store 0, .halt]
          vars := [{ name := "Z", dataType := .int, variableClass := .output, exported := true, initial := .int 0 }] }
      values := [.int 0] }
  exports := { allocations := (ExportPool.allocations {}).put firstSlot (some ⟨0, 1⟩) }
  bindings := ⟨0, "Z", 0, .int, .output, .holding 5⟩ :: counting.bindings
  clock := .steady 20000 7

theorem counter_is_isolated_from_driver :
    let r := Registers.setHolding {} 5 41
    let s := (r.setHolding 6 8).setCoil 5 true
    Alike secondSlot counting countingBeside r s ∧ (counting.tick r).1.isSome = true ∧
      (countingBeside.tick s).2.2.holdingAt 5 = 9 ∧
      ((counting.tick r).2.1.programs.get secondSlot).values = [.int 41, .int 42] ∧
      ((countingBeside.tick s).2.1.programs.get secondSlot).values = [.int 41, .int 42] := by
  intro r s
  have alike : Alike secondSlot counting countingBeside r s := by
    refine ⟨rfl, rfl, rfl, ⟨rfl, rfl, rfl, rfl, rfl, rfl⟩, rfl, ?_, ?_⟩ <;> decide +kernel
  have counted : ((counting.tick r).2.1.programs.get secondSlot).values = [.int 41, .int 42] := by decide +kernel
  obtain ⟨_, _, values, _⟩ := cycles_are_isolated secondSlot counting countingBeside r s alike
  exact ⟨alike, by decide +kernel, by decide +kernel, counted, values ▸ counted⟩

end Controller

end SoftPlc
