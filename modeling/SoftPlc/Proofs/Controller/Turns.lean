import SoftPlc.Controller.Tick
import SoftPlc.Proofs.Store.Slots

/-!
What a cycle can do, one step at a time: the ways in which a run can end, in which a slot can have
its turn, and in which a tick can be answered. All that is kept by a cycle follows from these.
-/
set_option autoImplicit false

namespace SoftPlc.Controller

variable (c : Controller)

def ran (i : Fin slotCount) (b : Bytecode) : Debugger × Machine × Debugger.Outcome :=
  let given := (c.debuggers.get i).nextMachine b (c.programs.get i).values
  given.1.run b c.settings.maxSteps given.2

def behindRun (i : Fin slotCount) (b : Bytecode) : Controller :=
  { c with
    debuggers := c.debuggers.put i (c.ran i b).1
    clock := c.clock.next.next }

def spent : UInt32 := (since c.clock.next.now c.clock.now).toUInt32

theorem run_bytecode_cases (i : Fin slotCount) (b : Bytecode) (r : Registers) :
    ((c.ran i b).2.2 = .completed ∧ c.runBytecode i b r =
      (.completed c.spent, (c.behindRun i b).complete i b (c.ran i b).2.1.vars c.spent r)) ∨
    (∃ f, (c.ran i b).2.2 = .faulted f ∧ c.runBytecode i b r = (.faulted f, (c.behindRun i b).countFault i f, r)) ∨
    (c.ran i b).2.2 = .paused ∧ c.runBytecode i b r = (.paused, c.behindRun i b, r) := by
  unfold runBytecode runBytecodeWith behindRun ran
  simp only [readClock, Id.run_bind, Id.run_pure]
  generalize Debugger.run b c.settings.maxSteps _ _ = result
  obtain ⟨d, m, outcome⟩ := result
  cases outcome with
  | completed => exact .inl ⟨rfl, rfl⟩
  | faulted f => exact .inr (.inl ⟨f, rfl, rfl⟩)
  | paused => exact .inr (.inr ⟨rfl, rfl⟩)

theorem run_slot_cases (i : Fin slotCount) (r : Registers) :
    (c.runSlot i r = (none, c, r) ∧ ((c.programs.get i).bytecode = none ∨ (c.programs.get i).enabled = false)) ∨
    ∃ b, (c.programs.get i).bytecode = some b ∧ (c.programs.get i).enabled = true ∧
      ((c.debuggers.get i).isPaused = true ∧ c.runSlot i r = (some .paused, c, r) ∨
        (c.debuggers.get i).isPaused = false ∧
          c.runSlot i r = (some (c.runBytecode i b r).1, (c.runBytecode i b r).2)) := by
  unfold runSlot runSlotWith
  simp only
  cases (c.programs.get i).bytecode with
  | none => exact .inl ⟨rfl, .inl rfl⟩
  | some b =>
    cases (c.programs.get i).enabled with
    | false => exact .inl ⟨rfl, .inr rfl⟩
    | true =>
      refine .inr ⟨b, rfl, rfl, ?_⟩
      cases (c.debuggers.get i).isPaused with
      | true => exact .inl ⟨rfl, rfl⟩
      | false => exact .inr ⟨rfl, rfl⟩

theorem run_slots_cons (i : Fin slotCount) (rest : List (Fin slotCount)) (r : Registers) :
    c.runSlots r (i :: rest) =
      let next := (c.runSlot i r).2.1.runSlots (c.runSlot i r).2.2 rest
      ((c.runSlot i r).1.toList.map (i.val, ·) ++ next.1, next.2) := rfl

def turns (now : UInt64) (r : Registers) : List (Nat × ProgramRun) × Controller × Registers :=
  (readInputs { c with lastRun := now, quota := 0 } r).runSlots r (List.finRange slotCount)

theorem cycle_at_turns (now : UInt64) (r : Registers) : ∃ us overrun clock cycle,
    c.cycleAt now r = ({ runs := (c.turns now r).1, us, overrun }, { (c.turns now r).2.1 with clock, cycle },
      (c.turns now r).2.1.publishStatus ((c.turns now r).2.1.writeOutputs (c.turns now r).2.2)) := by
  unfold cycleAt cycleWith turns runSlots
  simp only [Id.run_bind, Id.run_pure]
  generalize Id.run (runSlotsWith _ _ r (List.finRange slotCount)) = result
  obtain ⟨runs, next, written⟩ := result
  exact ⟨_, _, _, _, rfl⟩

def Due : Prop := c.settings.enabled = true ∧ ¬ since c.clock.now c.lastRun < c.settings.interval.microseconds

theorem tick_cases (r : Registers) :
    (¬ c.Due ∧ c.tick r = (none, c.readClock.2, r)) ∨
    c.Due ∧ c.tick r =
      (some (c.readClock.2.cycleAt c.clock.now r).1, (c.readClock.2.cycleAt c.clock.now r).2) := by
  have answer : c.tick r =
      if !c.settings.enabled then (none, c.readClock.2, r)
      else if since c.clock.now c.lastRun < c.settings.interval.microseconds then (none, c.readClock.2, r)
      else (some (c.readClock.2.cycleAt c.clock.now r).1, (c.readClock.2.cycleAt c.clock.now r).2) := by
    unfold tick tickWith
    simp only [Id.run_bind, Id.run_pure, apply_ite Id.run]
    rw [← cycleAt]
    -- a name for the cycle, which would be run on both sides otherwise
    generalize c.readClock.2.cycleAt = cycle
    rfl
  rw [answer, Due]
  cases c.settings.enabled with
  | false => exact .inl ⟨by simp, rfl⟩
  | true =>
    by_cases early : since c.clock.now c.lastRun < c.settings.interval.microseconds
    · exact .inl ⟨fun due => due.2 early, by simp [early]⟩
    · exact .inr ⟨⟨rfl, early⟩, by simp [early]⟩

theorem tick_early (r : Registers) (early : ¬ c.Due) : c.tick r = (none, c.readClock.2, r) := by
  rcases c.tick_cases r with ⟨_, answer⟩ | ⟨due, _⟩
  · exact answer
  · exact absurd due early

theorem tick_due (r : Registers) (due : c.Due) : ∃ report after left, c.tick r = (some report, after, left) := by
  rcases c.tick_cases r with ⟨early, _⟩ | ⟨_, answer⟩
  · exact absurd due early
  · exact ⟨_, _, _, answer⟩

theorem tick_fired (r left : Registers) (report : Report) (after : Controller)
    (fired : c.tick r = (some report, after, left)) : c.readClock.2.cycleAt c.clock.now r = (report, after, left) := by
  rcases c.tick_cases r with ⟨_, answer⟩ | ⟨_, answer⟩
  · cases answer.symm.trans fired
  · have whole := answer.symm.trans fired
    simp only [Prod.mk.injEq, Option.some.injEq] at whole
    exact Prod.ext whole.1 whole.2

theorem tick_turned (r left : Registers) (report : Report) (after : Controller)
    (fired : c.tick r = (some report, after, left)) : ∃ runs turned written us overrun clock cycle,
    c.readClock.2.turns c.clock.now r = (runs, turned, written) ∧ report = { runs, us, overrun } ∧
      after = { turned with clock, cycle } ∧ left = turned.publishStatus (turned.writeOutputs written) := by
  obtain ⟨us, overrun, clock, cycle, answer⟩ := c.readClock.2.cycle_at_turns c.clock.now r
  have whole := answer.symm.trans (c.tick_fired r left report after fired)
  generalize c.readClock.2.turns c.clock.now r = result at whole ⊢
  cases whole
  exact ⟨_, _, _, us, overrun, clock, cycle, rfl, rfl, rfl, rfl⟩

end SoftPlc.Controller
