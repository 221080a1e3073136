import SoftPlc.Machine.Debugger

set_option autoImplicit false

namespace SoftPlc.Debugger

open Machine

theorem add_breakpoint_others (d : Debugger) (pc : Nat) : ∃ slots, (d.addBreakpoint pc).2 = { d with slots } := by
  unfold addBreakpoint
  split
  · exact ⟨d.slots, rfl⟩
  · split
    · exact ⟨_, rfl⟩
    · exact ⟨d.slots, rfl⟩

variable (b : Bytecode) (maxSteps : UInt32)

def Stops (d : Debugger) (m : Machine) : Prop := d.hasBreakpoint m.pc = true ∧ ¬ d.passing = some m.pc

section
variable (left : Nat) (d : Debugger) (m : Machine)

def stoppedAt : Debugger :=
  ({ d with hitAt := some m.pc, hits := d.hits + 1, passing := some m.pc } : Debugger).suspend m .breakpoint

theorem watch_stops (stops : d.Stops m) : watch b maxSteps left d m = (d.stoppedAt m, m, .paused) := by
  have check : (!decide (d.passing = some m.pc) && d.hasBreakpoint m.pc) = true := by simpa using stops.symm
  rw [watch.eq_def]
  exact if_pos check

variable (goes : ¬ d.Stops m)
include goes

theorem watch_exhausted : watch b maxSteps 0 d m =
    (({ d with passing := none } : Debugger).pauseAt { m with fault := some (outOfSteps maxSteps) } .fault,
      { m with fault := some (outOfSteps maxSteps) }, .faulted (outOfSteps maxSteps)) := by
  have check : ¬ (!decide (d.passing = some m.pc) && d.hasBreakpoint m.pc) = true := by
    simpa [Stops, and_comm] using goes
  rw [watch.eq_def]
  exact if_neg check

theorem watch_step : watch b maxSteps (left + 1) d m =
    match ({ d with passing := none } : Debugger).afterStep (m.step b) with
    | (after, some outcome) => (after, m.step b, outcome)
    | (after, none) => watch b maxSteps left after (m.step b) := by
  have check : ¬ (!decide (d.passing = some m.pc) && d.hasBreakpoint m.pc) = true := by
    simpa [Stops, and_comm] using goes
  rw [watch.eq_def]
  exact if_neg check

end

-- The loop of a watched run: the looks that end it, and the steps between them.
inductive Watches : Nat → Debugger → Machine → Debugger × Machine × Outcome → Prop where
  | stopped (left : Nat) (d : Debugger) (m : Machine) : d.Stops m → Watches left d m (d.stoppedAt m, m, .paused)
  | exhausted (d : Debugger) (m : Machine) : ¬ d.Stops m →
      Watches 0 d m (({ d with passing := none } : Debugger).pauseAt { m with fault := some (outOfSteps maxSteps) } .fault,
        { m with fault := some (outOfSteps maxSteps) }, .faulted (outOfSteps maxSteps))
  | ended (left : Nat) (d after : Debugger) (m : Machine) (outcome : Outcome) : ¬ d.Stops m →
      ({ d with passing := none } : Debugger).afterStep (m.step b) = (after, some outcome) →
      Watches (left + 1) d m (after, m.step b, outcome)
  | goesOn (left : Nat) (d after : Debugger) (m : Machine) (result : Debugger × Machine × Outcome) : ¬ d.Stops m →
      ({ d with passing := none } : Debugger).afterStep (m.step b) = (after, none) →
      Watches left after (m.step b) result → Watches (left + 1) d m result

theorem watch_watches (left : Nat) (d : Debugger) (m : Machine) :
    Watches b maxSteps left d m (watch b maxSteps left d m) := by
  induction left generalizing d m with
  | zero =>
    by_cases stops : d.Stops m
    · rw [watch_stops b maxSteps 0 d m stops]
      exact .stopped 0 d m stops
    · rw [watch_exhausted b maxSteps d m stops]
      exact .exhausted d m stops
  | succ left ih =>
    by_cases stops : d.Stops m
    · rw [watch_stops b maxSteps (left + 1) d m stops]
      exact .stopped (left + 1) d m stops
    · rw [watch_step b maxSteps left d m stops]
      cases answer : ({ d with passing := none } : Debugger).afterStep (m.step b) with
      | mk after outcome =>
        cases outcome with
        | some outcome => exact .ended left d after m outcome stops answer
        | none => exact .goesOn left d after m _ stops answer (ih after (m.step b))

end SoftPlc.Debugger
