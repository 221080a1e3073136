import SoftPlc.Proofs.Machine.Frames
import SoftPlc.Proofs.Machine.Twins

set_option autoImplicit false

namespace SoftPlc.Machine

variable (b : Bytecode)

inductive Returns (maxSteps : UInt32) : Machine → Machine → Except Fault Unit → Prop where
  | halted (m : Machine) : m.halted = true → Returns maxSteps m m (.ok ())
  | faulted (m : Machine) (f : Fault) : m.halted = false → m.fault = some f → Returns maxSteps m m (.error f)
  | exhausted (m : Machine) : m.isRunning = true → maxSteps ≤ m.steps →
      Returns maxSteps m { m with fault := some (outOfSteps maxSteps) } (.error (outOfSteps maxSteps))
  | goesOn (m m' : Machine) (result : Except Fault Unit) : m.isRunning = true → m.steps < maxSteps →
      Returns maxSteps (m.step b) m' result → Returns maxSteps m m' result

def ExecutesAt (m : Machine) (k : Nat) (i : Instruction) : Prop :=
  ((step b)^[k] m).isRunning = true ∧ b.code[((step b)^[k] m).pc]? = some i

variable (maxSteps : UInt32)

theorem remaining_step (m : Machine) (running : m.isRunning = true) (below : m.steps < maxSteps) :
    (m.step b).steps.toNat = m.steps.toNat + 1 ∧ m.remaining maxSteps = (m.step b).remaining maxSteps + 1 := by
  have less : m.steps.toNat < maxSteps.toNat := below
  have limit := maxSteps.toNat_lt
  have counted : (m.step b).steps.toNat = m.steps.toNat + 1 := by
    rw [step_counted b m running, UInt32.toNat_add]
    exact Nat.mod_eq_of_lt (by simpa using (by omega : m.steps.toNat + 1 < 4294967296))
  refine ⟨counted, ?_⟩
  unfold remaining
  omega

theorem run_goes_on (m : Machine) (running : m.isRunning = true) (below : m.steps < maxSteps) :
    m.run b maxSteps = (m.step b).run b maxSteps := by
  rw [run, (remaining_step b maxSteps m running below).2, runFor, if_pos running, run]

theorem run_exhausted (m : Machine) (running : m.isRunning = true) (reached : maxSteps ≤ m.steps) :
    m.run b maxSteps = { m with fault := some (outOfSteps maxSteps) } := by
  have none : m.remaining maxSteps = 0 := Nat.sub_eq_zero_of_le reached
  rw [run, none, runFor, if_pos running]

theorem run_stopped (m : Machine) (stopped : m.isRunning = false) : m.run b maxSteps = m := by
  rw [run, runFor.eq_def, if_neg (by simp [stopped])]

theorem stopped_returns (m : Machine) (stopped : m.isRunning = false) : Returns b maxSteps m m m.outcome := by
  unfold outcome
  by_cases halted : m.halted = true
  · rw [if_pos halted]
    exact .halted m halted
  · have unhalted : m.halted = false := by simpa using halted
    rw [if_neg halted]
    cases fault : m.fault with
    | some f => exact .faulted m f unhalted fault
    | none => simp [isRunning, unhalted, fault] at stopped

theorem run_returns (m : Machine) : Returns b maxSteps m (m.run b maxSteps) (m.run b maxSteps).outcome := by
  induction left : m.remaining maxSteps using Nat.strongRecOn generalizing m with
  | _ left ih =>
  by_cases running : m.isRunning = true
  · by_cases below : m.steps < maxSteps
    · have less := (remaining_step b maxSteps m running below).2
      rw [run_goes_on b maxSteps m running below]
      exact .goesOn m _ _ running below (ih _ (by omega) (m.step b) rfl)
    · have reached : maxSteps ≤ m.steps := Nat.le_of_not_lt below
      have unhalted := ((is_running_iff m).mp running).1
      rw [run_exhausted b maxSteps m running reached]
      have answer : outcome { m with fault := some (outOfSteps maxSteps) } = .error (outOfSteps maxSteps) := by
        simp [outcome, unhalted]
      rw [answer]
      exact .exhausted m running reached
  · have stopped : m.isRunning = false := by simpa using running
    rw [run_stopped b maxSteps m stopped]
    exact stopped_returns b maxSteps m stopped

theorem returns_run (m m' : Machine) (result : Except Fault Unit) (returns : Returns b maxSteps m m' result) :
    m' = m.run b maxSteps ∧ result = m'.outcome := by
  induction returns with
  | halted m halted => exact ⟨(run_stopped b maxSteps m (not_running_of_halted m halted)).symm, (if_pos halted).symm⟩
  | faulted m f unhalted fault =>
    refine ⟨(run_stopped b maxSteps m (not_running_of_fault m f fault)).symm, ?_⟩
    simp [outcome, unhalted, fault]
  | exhausted m running reached =>
    refine ⟨(run_exhausted b maxSteps m running reached).symm, ?_⟩
    simp [outcome, ((is_running_iff m).mp running).1]
  | goesOn m m' result running below _ ih => exact ⟨ih.1.trans (run_goes_on b maxSteps m running below).symm, ih.2⟩

theorem returns_bounded (m m' : Machine) (result : Except Fault Unit) (returns : Returns b maxSteps m m' result) :
    m'.steps.toNat ≤ max maxSteps.toNat m.steps.toNat := by
  induction returns with
  | halted | faulted | exhausted => exact Nat.le_max_right _ _
  | goesOn m m' result running below _ ih =>
    have less : m.steps.toNat < maxSteps.toNat := below
    have counted := (remaining_step b maxSteps m running below).1
    omega

-- A higher ceiling matters only where the lower one ended the run.
theorem returns_higher (higher : UInt32) (above : maxSteps ≤ higher) (m m' : Machine) (result : Except Fault Unit)
    (returns : Returns b maxSteps m m' result) (other : ∀ f, result = .error f → f.kind ≠ .maxStepsExceeded) :
    Returns b higher m m' result := by
  induction returns with
  | halted m halted => exact .halted m halted
  | faulted m f unhalted fault => exact .faulted m f unhalted fault
  | exhausted m running reached => exact absurd rfl (other _ rfl)
  | goesOn m m' result running below _ ih => exact .goesOn m m' result running (Nat.lt_of_lt_of_le below above) (ih other)

theorem executes_at_step (m : Machine) (k : Nat) (i : Instruction) :
    ExecutesAt b m (k + 1) i ↔ ExecutesAt b (m.step b) k i := by
  simp only [ExecutesAt, Function.iterate_succ_apply]

theorem stopped_executes_at (m : Machine) (stopped : m.isRunning = false) (k : Nat) (i : Instruction) :
    ¬ ExecutesAt b m k i := by
  intro executes
  have running := executes.1
  rw [iterate_stopped b m stopped] at running
  cases stopped.symm.trans running

theorem step_halts (m : Machine) (running : m.isRunning = true) :
    (m.step b).halted = true ↔ b.code[m.pc]? = some .halt := by
  have unhalted := ((is_running_iff m).mp running).1
  unfold step
  rw [if_neg (by simp [running])]
  cases fetched : b.code[m.pc]? with
  | none => simp [unhalted]
  | some i =>
    cases performed : perform m.vars m.stack i with
    | error failure =>
      have other : i ≠ .halt := by
        rintro rfl
        cases performed
      simp [unhalted, performed, other]
    | ok effect =>
      have only : effect.halts = true ↔ i = .halt := by
        constructor
        · intro halts
          cases perform_does m.vars m.stack i effect performed with
          | halts => rfl
          | _ => cases halts
        · rintro rfl
          cases performed
          rfl
      simp [performed, only]

theorem returns_ok_iff (m m' : Machine) (result : Except Fault Unit) (returns : Returns b maxSteps m m' result) :
    result = .ok () ↔ m.halted = true ∨ ∃ k, m.steps.toNat + k + 1 ≤ maxSteps.toNat ∧ ExecutesAt b m k .halt := by
  induction returns with
  | halted m halted => simp [halted]
  | faulted m f unhalted fault =>
    have never := stopped_executes_at b m (not_running_of_fault m f fault)
    simp [unhalted, never]
  | exhausted m running reached =>
    have reached : maxSteps.toNat ≤ m.steps.toNat := reached
    have unhalted := ((is_running_iff m).mp running).1
    simp only [reduceCtorEq, unhalted, Bool.false_eq_true, false_or, false_iff]
    rintro ⟨k, within, _⟩
    omega
  | goesOn m m' result running below _ ih =>
    have less : m.steps.toNat < maxSteps.toNat := below
    have unhalted := ((is_running_iff m).mp running).1
    rw [ih, step_halts b m running, (remaining_step b maxSteps m running below).1, unhalted]
    constructor
    · rintro (here | ⟨k, within, later⟩)
      · exact .inr ⟨0, by omega, running, here⟩
      · exact .inr ⟨k + 1, by omega, (executes_at_step b m k .halt).mpr later⟩
    · rintro (halted | ⟨k, within, executes⟩)
      · cases halted
      · cases k with
        | zero => exact .inl executes.2
        | succ k => exact .inr ⟨k, by omega, (executes_at_step b m k .halt).mp executes⟩

end SoftPlc.Machine
