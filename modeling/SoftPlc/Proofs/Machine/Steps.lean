import Mathlib.Logic.Function.Iterate
import SoftPlc.Machine.Basic

set_option autoImplicit false

namespace SoftPlc.Machine

variable (b : Bytecode)

def cutOff (maxSteps : UInt32) (m : Machine) : Machine :=
  if m.isRunning then { m with fault := some (outOfSteps maxSteps) } else m

def hasFault (kind : Fault.Kind) (m : Machine) : Prop := ∃ f, m.fault = some f ∧ f.kind = kind

instance (kind : Fault.Kind) (m : Machine) : Decidable (m.hasFault kind) :=
  decidable_of_iff (m.fault.map (·.kind) = some kind) Option.map_eq_some_iff

theorem is_running_iff (m : Machine) : m.isRunning = true ↔ m.halted = false ∧ m.fault = none := by
  simp [isRunning]

theorem not_running_of_fault (m : Machine) (f : Fault) (faulted : m.fault = some f) :
    m.isRunning = false := by
  simp [isRunning, faulted]

theorem not_running_of_halted (m : Machine) (halted : m.halted = true) : m.isRunning = false := by
  simp [isRunning, halted]

theorem step_stopped (m : Machine) (stopped : m.isRunning = false) : m.step b = m := by
  simp [step, stopped]

theorem iterate_stopped (m : Machine) (stopped : m.isRunning = false) (n : Nat) :
    (step b)^[n] m = m :=
  Function.iterate_fixed (step_stopped b m stopped) n

theorem iterate_after_stop (m : Machine) (i j : Nat) (later : i ≤ j)
    (stopped : ((step b)^[i] m).isRunning = false) : (step b)^[j] m = (step b)^[i] m := by
  obtain ⟨k, rfl⟩ := Nat.exists_eq_add_of_le' later
  rw [Function.iterate_add_apply]
  exact iterate_stopped b _ stopped k

theorem stopped_unique (m : Machine) (i j : Nat) (atI : ((step b)^[i] m).isRunning = false)
    (atJ : ((step b)^[j] m).isRunning = false) : (step b)^[i] m = (step b)^[j] m := by
  rcases Nat.le_total i j with less | less
  · exact (iterate_after_stop b m i j less atI).symm
  · exact iterate_after_stop b m j i less atJ

theorem running_before (m : Machine) (i j : Nat) (earlier : i ≤ j)
    (running : ((step b)^[j] m).isRunning = true) : ((step b)^[i] m).isRunning = true := by
  by_contra stopped
  have same := iterate_after_stop b m i j earlier (by simpa using stopped)
  exact stopped (same ▸ running)

theorem run_for_iterate (maxSteps : UInt32) (left : Nat) (m : Machine) :
    runFor b maxSteps left m = ((step b)^[left] m).cutOff maxSteps := by
  induction left generalizing m with
  | zero => rfl
  | succ left ih =>
    by_cases running : m.isRunning = true
    · rw [runFor, if_pos running, Function.iterate_succ_apply]
      exact ih (m.step b)
    · have stopped : m.isRunning = false := by simpa using running
      rw [runFor, if_neg running, iterate_stopped b m stopped, cutOff, if_neg running]

theorem run_iterate (maxSteps : UInt32) (m : Machine) :
    m.run b maxSteps = ((step b)^[m.remaining maxSteps] m).cutOff maxSteps :=
  run_for_iterate b maxSteps _ m

theorem cut_off_stopped (maxSteps : UInt32) (m : Machine) :
    (m.cutOff maxSteps).isRunning = false := by
  by_cases running : m.isRunning = true
  · rw [cutOff, if_pos running]
    exact not_running_of_fault _ _ rfl
  · rw [cutOff, if_neg running]
    simpa using running

theorem run_within (maxSteps : UInt32) (m : Machine)
    (within : ¬ (m.run b maxSteps).hasFault .maxStepsExceeded) :
    m.run b maxSteps = (step b)^[m.remaining maxSteps] m ∧
      ((step b)^[m.remaining maxSteps] m).isRunning = false := by
  rw [run_iterate] at within ⊢
  by_cases running : ((step b)^[m.remaining maxSteps] m).isRunning = true
  · exact absurd ⟨outOfSteps maxSteps, by rw [cutOff, if_pos running], rfl⟩ within
  · rw [cutOff, if_neg running]
    exact ⟨rfl, by simpa using running⟩

end SoftPlc.Machine
