import SoftPlc.Proofs.Debugger.Variables
import SoftPlc.Proofs.Debugger.Watching

set_option autoImplicit false

namespace SoftPlc.Debugger

open Machine

inductive Event where
  | command (c : Command)
  | add (pc : Nat)
  | remove (pc : Nat)
  | clear
  | keep (values : List Value)
  | run
deriving DecidableEq, Repr

-- Nothing reads `started`: it remembers the values that the last run was started with, which goes
-- on while it is suspended.
structure Session where
  debugger : Debugger := {}
  kept : List Value
  started : List Value := []

namespace Session

def origin (s : Session) : List Value :=
  if s.debugger.suspended.isSome then s.started else s.kept

def run (b : Bytecode) (maxSteps : UInt32) (s : Session) : Session × Machine × Outcome :=
  let (d, m) := s.debugger.nextMachine b s.kept
  let (d, m, outcome) := d.run b maxSteps m
  ({ debugger := d, kept := if outcome = .completed then m.vars else s.kept, started := s.origin }, m, outcome)

def after (b : Bytecode) (maxSteps : UInt32) (s : Session) : Event → Session
  | .command c => { s with debugger := s.debugger.apply c }
  | .add pc => { s with debugger := (s.debugger.addBreakpoint pc).2 }
  | .remove pc => { s with debugger := s.debugger.removeBreakpoint pc }
  | .clear => { s with debugger := s.debugger.clearBreakpoints }
  | .keep values => { s with kept := values }
  | .run => (s.run b maxSteps).1

variable (b : Bytecode) (maxSteps : UInt32)

-- The frame of a suspended run is that of a moment of the plain run, within its steps.
def Faithful (s : Session) : Prop :=
  ∀ frame, s.debugger.suspended = some frame →
    ∃ n ≤ (start b s.started).remaining maxSteps, frame = ((step b)^[n] (start b s.started)).frame ∧
      ((step b)^[n] (start b s.started)).isRunning = true

theorem apply_suspended (d : Debugger) (c : Command) (unstopped : c ≠ .stop) :
    (d.apply c).suspended = d.suspended := by
  cases c with
  | stop => exact absurd rfl unstopped
  | pause | resume | step => rfl

theorem next_machine_faithful (s : Session) (faithful : s.Faithful b maxSteps) :
    (s.debugger.nextMachine b s.kept).1.suspended = none ∧
      ∃ n ≤ (start b s.origin).remaining maxSteps,
        (s.debugger.nextMachine b s.kept).2 = (step b)^[n] (start b s.origin) ∧
          ((step b)^[n] (start b s.origin)).isRunning = true := by
  unfold nextMachine takeSuspended origin
  cases suspended : s.debugger.suspended with
  | none => exact ⟨rfl, 0, Nat.zero_le _, rfl, rfl⟩
  | some frame =>
    obtain ⟨n, within, same, running⟩ := faithful frame suspended
    have room := iterate_bounded b (start b s.started) n (Nat.zero_le _) running
    refine ⟨rfl, n, within, ?_, running⟩
    rw [same]
    exact resume_frame _ room running

def Reports (m : Machine) (outcome : Outcome) : Prop :=
  outcome = .completed ∧ m.halted = true ∨ ∃ f, outcome = .faulted f ∧ m.halted = false ∧ m.fault = some f

theorem run_faithful (s next : Session) (m : Machine) (outcome : Outcome) (faithful : s.Faithful b maxSteps)
    (ran : s.run b maxSteps = (next, m, outcome)) :
    next.Faithful b maxSteps ∧
      (outcome ≠ .paused → m = (start b s.origin).run b maxSteps ∧ Reports m outcome) := by
  obtain ⟨given, n, within, moment, running⟩ := next_machine_faithful b maxSteps s faithful
  have left := remaining_later b (start b s.origin) maxSteps n within running
  have whole := run_from_later b (start b s.origin) maxSteps n within running
  have comes := run_comes b maxSteps (s.debugger.nextMachine b s.kept).1 _ (moment ▸ running)
  rw [given, moment] at comes
  unfold Session.run at ran
  simp only [moment] at ran
  generalize Debugger.run b maxSteps _ _ = result at comes ran
  cases ran
  cases outcome : result.2.2 with
  | paused =>
    rw [outcome] at comes
    obtain ⟨k, fewer, same, still, kept⟩ := comes
    refine ⟨fun frame suspended => ⟨k + n, by simp only at fewer ⊢; omega, ?_⟩, fun finished => absurd rfl finished⟩
    simp only [Function.iterate_add_apply, ← same]
    exact ⟨Option.some.inj (suspended.symm.trans kept), still⟩
  | completed =>
    rw [outcome] at comes
    obtain ⟨same, halted, none⟩ := comes
    refine ⟨fun frame suspended => ?_, fun _ => ⟨same.trans whole, .inl ⟨rfl, halted⟩⟩⟩
    cases suspended.symm.trans none
  | faulted f =>
    rw [outcome] at comes
    obtain ⟨same, unhalted, fault, none⟩ := comes
    refine ⟨fun frame suspended => ?_, fun _ => ⟨same.trans whole, .inr ⟨f, rfl, unhalted, fault⟩⟩⟩
    cases suspended.symm.trans none

theorem after_faithful (s : Session) (e : Event) (unstopped : e ≠ .command .stop)
    (faithful : s.Faithful b maxSteps) : (s.after b maxSteps e).Faithful b maxSteps := by
  cases e with
  | command c =>
    have same := apply_suspended s.debugger c (fun stop => unstopped (congrArg Event.command stop))
    exact fun frame suspended => faithful frame (same.symm.trans suspended)
  | add pc =>
    have same := add_breakpoint_suspended s.debugger pc
    exact fun frame suspended => faithful frame (same.symm.trans suspended)
  | remove pc | clear | keep values => exact faithful
  | run => exact (run_faithful b maxSteps s _ _ _ faithful rfl).1

theorem history_faithful (history : List Event) (s : Session) (unstopped : .command .stop ∉ history)
    (faithful : s.Faithful b maxSteps) : (history.foldl (·.after b maxSteps) s).Faithful b maxSteps := by
  induction history generalizing s with
  | nil => exact faithful
  | cons e rest ih =>
    have here : e ≠ .command .stop := fun same => unstopped (same ▸ List.mem_cons_self)
    exact ih _ (fun later => unstopped (List.mem_cons_of_mem e later)) (after_faithful b maxSteps s e here faithful)

-- Whatever a session without stop has been through, a run of it that is finished ends in the machine
-- of the plain run from the values that this run was started with: with the same variables, the
-- same fault and the same count of steps.
theorem watched_run_is_plain_run (values : List Value) (history : List Event) (s next : Session) (m : Machine)
    (outcome : Outcome) (unstopped : .command .stop ∉ history)
    (reached : history.foldl (·.after b maxSteps) { kept := values } = s)
    (ran : s.run b maxSteps = (next, m, outcome)) (finished : outcome ≠ .paused) :
    m = (start b s.origin).run b maxSteps ∧ Reports m outcome := by
  have opened : Faithful b maxSteps { kept := values } := fun _ none => by cases none
  have faithful := history_faithful b maxSteps history _ unstopped opened
  rw [reached] at faithful
  exact (run_faithful b maxSteps s next m outcome faithful ran).2 finished

theorem paused_sum_is_plain_sum :
    let b : Bytecode :=
      { name := none
        code := [.load 0, .push (.int 5), .binary .add .int, .store 0, .halt]
        vars := [{ name := "s", dataType := .int, variableClass := .ordinary, exported := false, initial := .int 0 }] }
    let history : List Event := [.command .pause, .add 3, .run, .command .resume, .run, .keep [.int 9]]
    let s := history.foldl (·.after b 100) { kept := [.int 2] : Session }
    (s.run b 100).2.2 = .completed ∧ (s.run b 100).2.1 = (start b [.int 2]).run b 100 := by
  intro b history s
  have ended : (s.run b 100).2.2 = .completed := by decide +kernel
  have origin : s.origin = [.int 2] := by decide +kernel
  have unstopped : .command .stop ∉ history := by decide
  have reached : history.foldl (·.after b 100) { kept := [.int 2] } = s := rfl
  clear_value s history b
  generalize ran : s.run b 100 = result at ended ⊢
  obtain ⟨next, m, outcome⟩ := result
  have finished : outcome ≠ .paused := fun paused => by simp [paused] at ended
  have plain := watched_run_is_plain_run b 100 [.int 2] history s next m outcome unstopped reached ran finished
  rw [origin] at plain
  exact ⟨ended, plain.1⟩

end Session

end SoftPlc.Debugger
