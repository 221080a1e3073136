import SoftPlc.Proofs.Debugger.Looks
import SoftPlc.Proofs.Machine.Frames

set_option autoImplicit false

namespace SoftPlc.Debugger

open Machine

variable (b : Bytecode) (maxSteps : UInt32)

-- What a run of at most `left` steps leaves: the debugger, the machine and the outcome. A frame
-- that was waiting before stays only where the run does not wait itself.
def ComesTo (left : Nat) (m : Machine) (waiting : Option Frame) (d : Debugger) (m' : Machine) : Outcome → Prop
  | .paused =>
    ∃ n ≤ left, m' = (step b)^[n] m ∧ m'.isRunning = true ∧ d.suspended = some m'.frame
  | .completed => m' = runFor b maxSteps left m ∧ m'.halted = true ∧ d.suspended = waiting
  | .faulted f =>
    m' = runFor b maxSteps left m ∧ m'.halted = false ∧ m'.fault = some f ∧ d.suspended = waiting

theorem run_for_step (m : Machine) (left : Nat) (running : m.isRunning = true) :
    runFor b maxSteps (left + 1) m = runFor b maxSteps left (m.step b) := by
  rw [runFor, if_pos running]

theorem run_for_stopped (m : Machine) (left : Nat) (stopped : m.isRunning = false) :
    runFor b maxSteps left m = m := by
  rw [runFor.eq_def, if_neg (by simp [stopped])]

theorem comes_to_step (left : Nat) (m : Machine) (waiting : Option Frame) (d : Debugger) (m' : Machine)
    (outcome : Outcome) (running : m.isRunning = true)
    (later : ComesTo b maxSteps left (m.step b) waiting d m' outcome) :
    ComesTo b maxSteps (left + 1) m waiting d m' outcome := by
  cases outcome with
  | paused =>
    obtain ⟨n, within, same, kept⟩ := later
    exact ⟨n + 1, by omega, same, kept⟩
  | completed =>
    obtain ⟨same, halted⟩ := later
    exact ⟨same.trans (run_for_step b maxSteps m left running).symm, halted⟩
  | faulted f =>
    obtain ⟨same, fault⟩ := later
    exact ⟨same.trans (run_for_step b maxSteps m left running).symm, fault⟩

theorem after_step_comes (left : Nat) (m : Machine) (d : Debugger) :
    match d.afterStep m with
    | (after, some outcome) => ComesTo b maxSteps left m d.suspended after m outcome
    | (after, none) => m.isRunning = true ∧ after.suspended = d.suspended := by
  unfold afterStep
  by_cases halted : m.halted = true
  · have stays := run_for_stopped b maxSteps m left (not_running_of_halted m halted)
    simp only [if_pos halted]
    refine ⟨stays.symm, halted, ?_⟩
    split <;> rfl
  · have unhalted : m.halted = false := by simpa using halted
    simp only [if_neg halted]
    cases fault : m.fault with
    | some f =>
      have stays := run_for_stopped b maxSteps m left (not_running_of_fault m f fault)
      exact ⟨stays.symm, unhalted, fault, rfl⟩
    | none =>
      have running : m.isRunning = true := (is_running_iff m).mpr ⟨unhalted, fault⟩
      by_cases single : d.mode = .step
      · simp only [if_pos single]
        exact ⟨0, Nat.zero_le left, rfl, running, rfl⟩
      · simp only [if_neg single]
        exact ⟨running, trivial⟩

theorem watch_comes (left : Nat) (d : Debugger) (m : Machine) (running : m.isRunning = true) :
    ComesTo b maxSteps left m d.suspended (watch b maxSteps left d m).1 (watch b maxSteps left d m).2.1
      (watch b maxSteps left d m).2.2 := by
  have watches := watch_watches b maxSteps left d m
  generalize watch b maxSteps left d m = result at watches ⊢
  induction watches with
  | stopped left d m _ => exact ⟨0, Nat.zero_le left, rfl, running, rfl⟩
  | exhausted d m _ =>
    refine ⟨?_, ((is_running_iff m).mp running).1, rfl, rfl⟩
    rw [runFor, if_pos running]
  | ended left d after m outcome _ answer =>
    have decided := after_step_comes b maxSteps left (m.step b) { d with passing := none }
    rw [answer] at decided
    exact comes_to_step b maxSteps left m _ _ _ _ running decided
  | goesOn left d after m result _ answer _ ih =>
    have decided := after_step_comes b maxSteps left (m.step b) { d with passing := none }
    rw [answer] at decided
    obtain ⟨still, same⟩ := decided
    have later := ih still
    rw [same] at later
    exact comes_to_step b maxSteps left m _ _ _ _ running later

theorem run_comes (d : Debugger) (m : Machine) (running : m.isRunning = true) :
    ComesTo b maxSteps (m.remaining maxSteps) m d.suspended (d.run b maxSteps m).1 (d.run b maxSteps m).2.1
      (d.run b maxSteps m).2.2 := by
  unfold Debugger.run
  by_cases off : d.mode = .off
  · have stopped := cut_off_stopped maxSteps ((step b)^[m.remaining maxSteps] m)
    rw [← run_iterate] at stopped
    simp only [if_pos off, outcome]
    by_cases halted : (m.run b maxSteps).halted = true
    · simp only [if_pos halted]
      exact ⟨rfl, halted, rfl⟩
    · have unhalted : (m.run b maxSteps).halted = false := by simpa using halted
      simp only [if_neg halted]
      cases fault : (m.run b maxSteps).fault with
      | some f => exact ⟨rfl, unhalted, fault, rfl⟩
      | none => simp [isRunning, unhalted, fault] at stopped
  · simp only [if_neg off]
    exact watch_comes b maxSteps _ d m running

end SoftPlc.Debugger
