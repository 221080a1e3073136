import SoftPlc.Proofs.Controller.Turns

set_option autoImplicit false

namespace SoftPlc

open Controller (ProgramRun)

-- What a slot has for itself. Its turn depends on this and on the settings, and leaves this and
-- what it writes to its export registers.
structure Slot where
  program : LogicProgram
  debugger : Debugger
deriving DecidableEq

namespace Slot

def reported (us : UInt32) : Debugger.Outcome → ProgramRun
  | .completed => .completed us
  | .faulted f => .faulted f
  | .paused => .paused

-- What a run makes of the program: the machine's variables are taken over only from a run that has
-- come to its end, and only a fault is counted and noted.
def settle (p : LogicProgram) (m : Machine) (us interval : UInt32) : Debugger.Outcome → LogicProgram
  | .completed =>
    { p with values := m.vars, statistics := { p.statistics with runs := p.statistics.runs.record us interval } }
  | .faulted f => { p with statistics := { p.statistics with errors := p.statistics.errors + 1 } }.setError f.render
  | .paused => p

variable (settings : Settings) (us : UInt32) (s : Slot)

def run (b : Bytecode) : Debugger × Machine × Debugger.Outcome :=
  let given := s.debugger.nextMachine b s.program.values
  given.1.run b settings.maxSteps given.2

def afterRun (b : Bytecode) : Slot where
  program := settle s.program (s.run settings b).2.1 us settings.interval.milliseconds (s.run settings b).2.2
  debugger := (s.run settings b).1

def turn : Option ProgramRun × Slot :=
  match s.program.bytecode with
  | none => (none, s)
  | some b =>
    if !s.program.enabled then (none, s)
    else if s.debugger.isPaused then (some .paused, s)
    else (some (reported us (s.run settings b).2.2), s.afterRun settings us b)

theorem turn_cases :
    (s.turn settings us = (none, s) ∧ (s.program.bytecode = none ∨ s.program.enabled = false)) ∨
    ∃ b, s.program.bytecode = some b ∧ s.program.enabled = true ∧
      (s.debugger.isPaused = true ∧ s.turn settings us = (some .paused, s) ∨
        s.debugger.isPaused = false ∧
          s.turn settings us = (some (reported us (s.run settings b).2.2), s.afterRun settings us b)) := by
  unfold turn
  cases s.program.bytecode with
  | none => exact .inl ⟨rfl, .inl rfl⟩
  | some b =>
    cases s.program.enabled with
    | false => exact .inl ⟨rfl, .inr rfl⟩
    | true =>
      refine .inr ⟨b, rfl, rfl, ?_⟩
      cases s.debugger.isPaused with
      | true => exact .inl ⟨rfl, rfl⟩
      | false => exact .inr ⟨rfl, rfl⟩

theorem turn_program : ∃ values statistics lastError,
    (s.turn settings us).2.program = { s.program with values, statistics, lastError } := by
  rcases s.turn_cases settings us with ⟨answer, _⟩ | ⟨b, _, _, ⟨_, answer⟩ | ⟨_, answer⟩⟩
  · exact ⟨_, _, _, by rw [answer]⟩
  · exact ⟨_, _, _, by rw [answer]⟩
  · rw [answer]
    simp only [afterRun, settle]
    split <;> exact ⟨_, _, _, rfl⟩

end Slot

namespace Controller

variable (c : Controller)

def firstSlot : Fin slotCount := ⟨0, by decide⟩

def slot (i : Fin slotCount) : Slot := ⟨c.programs.get i, c.debuggers.get i⟩

def runsOf (i : Fin slotCount) (runs : List (Nat × ProgramRun)) : List ProgramRun :=
  (runs.filter (·.1 == i.val)).map (·.2)

theorem runs_of_append (i : Fin slotCount) (first later : List (Nat × ProgramRun)) :
    runsOf i (first ++ later) = runsOf i first ++ runsOf i later := by
  simp [runsOf]

theorem runs_of_self (i : Fin slotCount) (run : Option ProgramRun) :
    runsOf i (run.toList.map (i.val, ·)) = run.toList := by
  cases run <;> simp [runsOf]

theorem runs_of_other (i j : Fin slotCount) (other : j ≠ i) (run : Option ProgramRun) :
    runsOf i (run.toList.map (j.val, ·)) = [] := by
  have apart : j.val ≠ i.val := fun same => other (Fin.ext same)
  cases run <;> simp [runsOf, apart]

theorem slot_run (i : Fin slotCount) (b : Bytecode) : (c.slot i).run c.settings b = c.ran i b := rfl

theorem run_bytecode_slot (i : Fin slotCount) (b : Bytecode) (r : Registers) :
    (c.runBytecode i b r).1 = Slot.reported c.spent (c.ran i b).2.2 ∧
      (c.runBytecode i b r).2.1.slot i = (c.slot i).afterRun c.settings c.spent b := by
  unfold Slot.afterRun
  rw [slot_run]
  rcases c.run_bytecode_cases i b r with ⟨ended, answer⟩ | ⟨f, ended, answer⟩ | ⟨ended, answer⟩
  · simp [answer, ended, slot, complete, setProgram, behindRun, Slot.settle, Slot.reported]
  · simp [answer, ended, slot, countFault, setProgram, behindRun, Slot.settle, Slot.reported]
  · simp [answer, ended, slot, behindRun, Slot.settle, Slot.reported]

theorem run_slot_turn (i : Fin slotCount) (r : Registers) :
    (c.runSlot i r).1 = ((c.slot i).turn c.settings c.spent).1 ∧
      (c.runSlot i r).2.1.slot i = ((c.slot i).turn c.settings c.spent).2 := by
  have ran (b : Bytecode) := c.run_bytecode_slot i b r
  have program : (c.slot i).program = c.programs.get i := rfl
  have debugger : (c.slot i).debugger = c.debuggers.get i := rfl
  unfold Slot.turn runSlot runSlotWith
  simp only [program, debugger]
  cases (c.programs.get i).bytecode with
  | none => exact ⟨rfl, rfl⟩
  | some b =>
    cases (c.programs.get i).enabled with
    | false => exact ⟨rfl, rfl⟩
    | true =>
      cases (c.debuggers.get i).isPaused with
      | true => exact ⟨rfl, rfl⟩
      | false => exact ⟨congrArg some (ran b).1, (ran b).2⟩

theorem run_bytecode_settings (i : Fin slotCount) (b : Bytecode) (r : Registers) :
    (c.runBytecode i b r).2.1.settings = c.settings := by
  rcases c.run_bytecode_cases i b r with ⟨_, answer⟩ | ⟨f, _, answer⟩ | ⟨_, answer⟩
  all_goals
    rw [answer]
    rfl

theorem run_bytecode_other (i j : Fin slotCount) (b : Bytecode) (r : Registers) (other : i ≠ j) :
    (c.runBytecode i b r).2.1.slot j = c.slot j := by
  rcases c.run_bytecode_cases i b r with ⟨_, answer⟩ | ⟨f, _, answer⟩ | ⟨_, answer⟩
  all_goals
    simp only [answer]
    simp [slot, complete, countFault, setProgram, behindRun, Slots.get_put_other _ i j _ other]

theorem run_slot_frame (i : Fin slotCount) (r : Registers) :
    (c.runSlot i r).2.1.settings = c.settings ∧ ∀ j, i ≠ j → (c.runSlot i r).2.1.slot j = c.slot j := by
  rcases c.run_slot_cases i r with ⟨answer, _⟩ | ⟨b, _, _, ⟨_, answer⟩ | ⟨_, answer⟩⟩
  · simp only [answer]
    exact ⟨trivial, fun _ _ => trivial⟩
  · simp only [answer]
    exact ⟨trivial, fun _ _ => trivial⟩
  · simp only [answer]
    exact ⟨c.run_bytecode_settings i b r, fun j other => c.run_bytecode_other i j b r other⟩

theorem run_slots_others (i : Fin slotCount) (slots : List (Fin slotCount)) (r : Registers) (absent : i ∉ slots) :
    runsOf i (c.runSlots r slots).1 = [] ∧ (c.runSlots r slots).2.1.slot i = c.slot i := by
  induction slots generalizing c r with
  | nil => exact ⟨rfl, rfl⟩
  | cons j rest ih =>
    obtain ⟨other, later⟩ := List.ne_and_not_mem_of_not_mem_cons absent
    obtain ⟨none, same⟩ := ih (c.runSlot j r).2.1 (c.runSlot j r).2.2 later
    refine ⟨?_, same.trans ((c.run_slot_frame j r).2 i other.symm)⟩
    rw [run_slots_cons, runs_of_append, runs_of_other i j other.symm]
    exact none

-- Whatever the slots in front and behind do, a slot has the turn that it has alone.
theorem run_slots_turn (i : Fin slotCount) (slots : List (Fin slotCount)) (r : Registers) (distinct : slots.Nodup)
    (member : i ∈ slots) : ∃ us,
    runsOf i (c.runSlots r slots).1 = ((c.slot i).turn c.settings us).1.toList ∧
      (c.runSlots r slots).2.1.slot i = ((c.slot i).turn c.settings us).2 := by
  induction slots generalizing c r with
  | nil => cases member
  | cons j rest ih =>
    obtain ⟨fresh, others⟩ := List.nodup_cons.mp distinct
    rw [run_slots_cons, runs_of_append]
    by_cases here : j = i
    · subst here
      obtain ⟨answer, left⟩ := c.run_slot_turn j r
      obtain ⟨none, same⟩ := run_slots_others (c.runSlot j r).2.1 j rest (c.runSlot j r).2.2 fresh
      refine ⟨c.spent, ?_, same.trans left⟩
      rw [runs_of_self, none, List.append_nil, answer]
    · obtain ⟨settings, same⟩ := c.run_slot_frame j r
      have later : i ∈ rest := (List.mem_cons.mp member).resolve_left fun equal => here equal.symm
      obtain ⟨us, runs, left⟩ := ih (c.runSlot j r).2.1 (c.runSlot j r).2.2 others later
      rw [settings, same i here] at runs left
      refine ⟨us, ?_, left⟩
      rw [runs_of_other i j here, List.nil_append, runs]

theorem run_slots_settings (slots : List (Fin slotCount)) (r : Registers) :
    (c.runSlots r slots).2.1.settings = c.settings := by
  induction slots generalizing c r with
  | nil => rfl
  | cons j rest ih => exact (ih _ _).trans (c.run_slot_frame j r).1

theorem read_inputs_program (i : Fin slotCount) (r : Registers) : (c.readInputs r).programs.get i =
    { c.programs.get i with values := c.bindings.readInputs i r (c.programs.get i).values } := by
  rw [readInputs, Slots.get_map_idx]

theorem turns_settings (now : UInt64) (r : Registers) : (c.turns now r).2.1.settings = c.settings := by
  unfold turns
  rw [run_slots_settings]
  rfl

theorem turns_turn (i : Fin slotCount) (now : UInt64) (r : Registers) : ∃ us,
    runsOf i (c.turns now r).1 = (((c.readInputs r).slot i).turn c.settings us).1.toList ∧
      (c.turns now r).2.1.slot i = (((c.readInputs r).slot i).turn c.settings us).2 := by
  unfold turns
  exact run_slots_turn _ i _ r (List.nodup_finRange slotCount) (List.mem_finRange i)

theorem tick_turn (i : Fin slotCount) (r left : Registers) (report : Report) (after : Controller)
    (fired : c.tick r = (some report, after, left)) : ∃ us,
    runsOf i report.runs = (((c.readInputs r).slot i).turn c.settings us).1.toList ∧
      after.slot i = (((c.readInputs r).slot i).turn c.settings us).2 := by
  obtain ⟨_, _, _, _, _, _, _, turns, rfl, rfl, _⟩ := c.tick_turned r left report after fired
  obtain ⟨us, turned⟩ := c.readClock.2.turns_turn i c.clock.now r
  rw [turns] at turned
  exact ⟨us, turned⟩

theorem tick_keeps_program (i : Fin slotCount) (r : Registers) : ∃ values statistics lastError,
    (c.tick r).2.1.programs.get i = { c.programs.get i with values, statistics, lastError } := by
  by_cases due : c.Due
  · obtain ⟨report, after, left, fired⟩ := c.tick_due r due
    obtain ⟨us, _, turned⟩ := c.tick_turn i r left report after fired
    obtain ⟨values, statistics, lastError, kept⟩ := Slot.turn_program c.settings us ((c.readInputs r).slot i)
    rw [← turned] at kept
    refine ⟨values, statistics, lastError, ?_⟩
    rw [fired]
    refine kept.trans ?_
    rw [slot, read_inputs_program]
  · rw [c.tick_early r due]
    exact ⟨_, _, _, rfl⟩

theorem tick_debugger (i : Fin slotCount) (r : Registers) :
    (c.tick r).2.1.debuggers.get i = c.debuggers.get i ∨
    ∃ b, (c.programs.get i).bytecode = some b ∧
      (c.tick r).2.1.debuggers.get i = (((c.readInputs r).slot i).run c.settings b).1 := by
  by_cases due : c.Due
  · obtain ⟨report, after, left, fired⟩ := c.tick_due r due
    obtain ⟨us, _, turned⟩ := c.tick_turn i r left report after fired
    have debugger := congrArg Slot.debugger turned
    have read := c.read_inputs_program i r
    rw [fired]
    rcases Slot.turn_cases c.settings us ((c.readInputs r).slot i) with
      ⟨answer, _⟩ | ⟨b, compiled, _, ⟨_, answer⟩ | ⟨_, answer⟩⟩
    · rw [answer] at debugger
      exact .inl debugger
    · rw [answer] at debugger
      exact .inl debugger
    · rw [answer] at debugger
      exact .inr ⟨b, by simpa only [slot, read] using compiled, debugger⟩
  · rw [c.tick_early r due]
    exact .inl rfl

theorem tick_settings (r : Registers) : (c.tick r).2.1.settings = c.settings := by
  rcases c.tick_cases r with ⟨_, answer⟩ | ⟨_, answer⟩
  · rw [answer]
    rfl
  · obtain ⟨_, _, _, _, cycle⟩ := c.readClock.2.cycle_at_turns c.clock.now r
    have turned := c.readClock.2.turns_settings c.clock.now r
    rw [answer, cycle]
    generalize c.readClock.2.turns c.clock.now r = result at turned ⊢
    exact turned

end Controller

end SoftPlc
