import SoftPlc.Proofs.Debugger.Breakpoints
import SoftPlc.Proofs.Machine.Ceiling
import SoftPlc.Proofs.Machine.Safety

set_option autoImplicit false

namespace SoftPlc.Debugger

open Machine

def Outcome.ofResult : Except Fault Unit → Outcome
  | .ok () => .completed
  | .error f => .faulted f

structure Unhindering (d : Debugger) : Prop where
  mode : d.mode = .run
  free : ∀ pc, d.hasBreakpoint pc = false

variable (b : Bytecode) (maxSteps : UInt32)

theorem after_step_goes_on (d : Debugger) (m : Machine) (several : d.mode ≠ .step) (running : m.isRunning = true) :
    d.afterStep m = ({ d with totalSteps := d.totalSteps + 1 }, none) := by
  obtain ⟨unhalted, fault⟩ := (is_running_iff m).mp running
  simp [afterStep, unhalted, fault, several]

theorem after_step_ends (d : Debugger) (m : Machine) (stopped : m.isRunning = false) :
    (d.afterStep m).2 = some (.ofResult m.outcome) := by
  unfold afterStep outcome
  by_cases halted : m.halted = true
  · simp only [if_pos halted]
    rfl
  · have unhalted : m.halted = false := by simpa using halted
    simp only [if_neg halted]
    cases fault : m.fault with
    | some f => rfl
    | none => simp [isRunning, unhalted, fault] at stopped

theorem watch_unhindered (left : Nat) (d : Debugger) (m : Machine) (free : Unhindering d) (running : m.isRunning = true) :
    (watch b maxSteps left d m).2 = (runFor b maxSteps left m, .ofResult (runFor b maxSteps left m).outcome) := by
  have watches := watch_watches b maxSteps left d m
  generalize watch b maxSteps left d m = result at watches ⊢
  induction watches with
  | stopped left d m stops => simp [Stops, free.free] at stops
  | exhausted d m _ =>
    have unhalted := ((is_running_iff m).mp running).1
    rw [runFor, if_pos running]
    simp [outcome, unhalted, Outcome.ofResult]
  | ended left d after m outcome _ answer =>
    have stopped : (m.step b).isRunning = false := by
      by_contra still
      have goes := after_step_goes_on { d with passing := none } _ (by simp [free.mode]) (by simpa using still)
      cases answer.symm.trans goes
    have decided := after_step_ends { d with passing := none } _ stopped
    rw [answer] at decided
    rw [run_for_step b maxSteps m left running, run_for_stopped b maxSteps _ left stopped, Option.some.inj decided]
  | goesOn left d after m result _ answer _ ih =>
    have still : (m.step b).isRunning = true := by
      by_contra stopped
      have decided := after_step_ends { d with passing := none } _ (by simpa using stopped)
      rw [answer] at decided
      cases decided
    have goes := after_step_goes_on { d with passing := none } _ (by simp [free.mode]) still
    cases answer.symm.trans goes
    rw [run_for_step b maxSteps m left running]
    exact ih ⟨free.mode, free.free⟩ still

theorem run_unhindered (d : Debugger) (m : Machine) (free : Unhindering d) (running : m.isRunning = true) :
    (d.run b maxSteps m).2 = (m.run b maxSteps, .ofResult (m.run b maxSteps).outcome) := by
  have watched : d.mode ≠ .off := by simp [free.mode]
  rw [Debugger.run, if_neg watched]
  exact watch_unhindered b maxSteps (m.remaining maxSteps) d m free running

-- Whatever a run begins with and whatever its ceiling: the loop returns, once and for all; it counts no
-- further than the ceiling or than it had counted before; it is right to return no fault if HALT is among
-- the instructions up to the ceiling; it returns the same under a higher ceiling unless it ran out of
-- steps; and a debugger that does not stop it sees the same run.
theorem ceiling_is_exact (m : Machine) (begun : Begun b m) :
    Returns b maxSteps m (m.run b maxSteps) (m.run b maxSteps).outcome ∧
      (∀ m' result, Returns b maxSteps m m' result → m' = m.run b maxSteps ∧ result = (m.run b maxSteps).outcome) ∧
      (m.run b maxSteps).steps.toNat ≤ max maxSteps.toNat m.steps.toNat ∧
      ((m.run b maxSteps).outcome = .ok () ↔
        ∃ k, m.steps.toNat + k + 1 ≤ maxSteps.toNat ∧ ExecutesAt b m k .halt) ∧
      (∀ higher, maxSteps ≤ higher → (∀ f, (m.run b maxSteps).outcome = .error f → f.kind ≠ .maxStepsExceeded) →
        m.run b higher = m.run b maxSteps) ∧
      (m.fault = none → ∀ d : Debugger, d.mode = .run → (∀ pc, d.hasBreakpoint pc = false) →
        (d.run b maxSteps m).2 = (m.run b maxSteps, .ofResult (m.run b maxSteps).outcome)) := by
  have returns := run_returns b maxSteps m
  have unhalted := begun_unhalted b m begun
  refine ⟨returns, ?_, returns_bounded b maxSteps m _ _ returns, ?_, ?_, ?_⟩
  · intro m' result other
    obtain ⟨rfl, same⟩ := returns_run b maxSteps m m' result other
    exact ⟨rfl, same⟩
  · have halts := returns_ok_iff b maxSteps m _ _ returns
    simpa only [unhalted, Bool.false_eq_true, false_or] using halts
  · intro higher above other
    have same := returns_higher b maxSteps higher above m _ _ returns other
    exact (returns_run b higher m _ _ same).1.symm
  · intro clear d mode free
    exact run_unhindered b maxSteps d m ⟨mode, free⟩ ((is_running_iff m).mpr ⟨unhalted, clear⟩)

theorem halt_at_the_ceiling :
    let b : Bytecode := { name := none, code := [.nop, .halt], vars := [] }
    let m := start b []
    Begun b m ∧ (m.run b 2).outcome = .ok () ∧ (m.run b 2).steps.toNat ≤ 2 ∧ (m.run b 1).outcome = .error (outOfSteps 1) ∧
      ∀ higher, 2 ≤ higher → m.run b higher = m.run b 2 := by
  intro b m
  have begun : Begun b m := .fresh []
  have halts : (m.run b 2).outcome = .ok () := by decide
  obtain ⟨_, _, bounded, _, same, _⟩ := ceiling_is_exact b 2 m begun
  exact ⟨begun, halts, bounded, by decide, fun higher above => same higher above (by simp [halts])⟩

end SoftPlc.Debugger
