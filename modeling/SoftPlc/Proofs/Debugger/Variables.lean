import SoftPlc.Proofs.Debugger.Looks
import SoftPlc.Proofs.Machine.Frames

set_option autoImplicit false

namespace SoftPlc

namespace Machine

variable (b : Bytecode)

theorem step_types (m : Machine) : (m.step b).vars.map (·.dataType) = m.vars.map (·.dataType) := by
  by_cases running : m.isRunning = true
  · rcases step_cases b m running with ⟨f, stack, same⟩ | ⟨i, effect, performed, same⟩
    · rw [same]
    · rw [same]
      exact (perform_leaves m.vars m.stack i effect performed).1
  · rw [step_stopped b m (by simpa using running)]

theorem iterate_types (m : Machine) (n : Nat) :
    ((step b)^[n] m).vars.map (·.dataType) = m.vars.map (·.dataType) := by
  induction n with
  | zero => rfl
  | succ n ih => rw [Function.iterate_succ_apply', step_types, ih]

theorem run_for_types (maxSteps : UInt32) (left : Nat) (m : Machine) :
    (runFor b maxSteps left m).vars.map (·.dataType) = m.vars.map (·.dataType) := by
  rw [run_for_iterate, cutOff]
  split
  · exact iterate_types b m left
  · exact iterate_types b m left

theorem resume_vars (frame : Frame) : (resume frame).vars = frame.vars := by
  unfold resume
  split <;> rfl

end Machine

namespace Debugger

open Machine

variable (b : Bytecode) (maxSteps : UInt32)

theorem apply_suspended_or (d : Debugger) (cmd : Command) :
    (d.apply cmd).suspended = d.suspended ∨ (d.apply cmd).suspended = none := by
  cases cmd with
  | stop => exact .inr rfl
  | pause | resume | step => exact .inl rfl

theorem add_breakpoint_suspended (d : Debugger) (pc : Nat) : (d.addBreakpoint pc).2.suspended = d.suspended := by
  obtain ⟨slots, same⟩ := add_breakpoint_others d pc
  rw [same]

theorem after_step_suspended (d : Debugger) (m : Machine) :
    (d.afterStep m).1.suspended = d.suspended ∨ (d.afterStep m).1.suspended = some m.frame := by
  unfold afterStep
  by_cases halted : m.halted = true
  · simp only [if_pos halted]
    left
    split <;> rfl
  · simp only [if_neg halted]
    cases m.fault with
    | some f => exact .inl rfl
    | none =>
      by_cases single : d.mode = .step
      · simp only [if_pos single]
        exact .inr rfl
      · simp only [if_neg single]
        exact .inl trivial

theorem after_step_types (d after : Debugger) (m : Machine) (outcome : Option Outcome)
    (answer : ({ d with passing := none } : Debugger).afterStep (m.step b) = (after, outcome)) (frame : Frame)
    (same : after.suspended = some frame) :
    d.suspended = some frame ∨ frame.vars.map (·.dataType) = m.vars.map (·.dataType) := by
  have decided := after_step_suspended { d with passing := none } (m.step b)
  rw [answer] at decided
  rcases decided with before | here
  · exact .inl (before.symm.trans same)
  · cases here.symm.trans same
    exact .inr (step_types b m)

theorem watch_types (left : Nat) (d : Debugger) (m : Machine) :
    (watch b maxSteps left d m).2.1.vars.map (·.dataType) = m.vars.map (·.dataType) ∧
      ∀ frame, (watch b maxSteps left d m).1.suspended = some frame →
        d.suspended = some frame ∨ frame.vars.map (·.dataType) = m.vars.map (·.dataType) := by
  have watches := watch_watches b maxSteps left d m
  generalize watch b maxSteps left d m = result at watches ⊢
  induction watches with
  | stopped left d m _ =>
    refine ⟨rfl, fun frame same => ?_⟩
    cases same
    exact .inr rfl
  | exhausted d m _ => exact ⟨rfl, fun frame same => .inl same⟩
  | ended left d after m outcome _ answer => exact ⟨step_types b m, after_step_types b d after m _ answer⟩
  | goesOn left d after m result _ answer _ ih =>
    obtain ⟨later, frames⟩ := ih
    have types := step_types b m
    refine ⟨later.trans types, fun frame same => ?_⟩
    rcases frames frame same with before | here
    · exact after_step_types b d after m _ answer frame before
    · exact .inr (here.trans types)

theorem run_types (d : Debugger) (m : Machine) :
    (d.run b maxSteps m).2.1.vars.map (·.dataType) = m.vars.map (·.dataType) ∧
      ∀ frame, (d.run b maxSteps m).1.suspended = some frame →
        d.suspended = some frame ∨ frame.vars.map (·.dataType) = m.vars.map (·.dataType) := by
  unfold Debugger.run
  by_cases off : d.mode = .off
  · simp only [if_pos off]
    have types := run_for_types b maxSteps (m.remaining maxSteps) m
    split
    · exact ⟨types, fun frame same => .inl same⟩
    · exact ⟨types, fun frame same => .inl same⟩
  · simp only [if_neg off]
    exact watch_types b maxSteps _ d m

theorem next_machine_types (values : List Value) (d : Debugger)
    (typed : Fits b.vars b.initialValues) (frames : ∀ frame, d.suspended = some frame → Fits b.vars frame.vars) :
    Fits b.vars (d.nextMachine b values).2.vars ∧ (d.nextMachine b values).1.suspended = none := by
  unfold nextMachine takeSuspended
  cases suspended : d.suspended with
  | none => exact ⟨(start_values_types b.initialValues values).trans typed, rfl⟩
  | some frame =>
    refine ⟨?_, rfl⟩
    rw [resume_vars]
    exact frames frame suspended

end Debugger

end SoftPlc
