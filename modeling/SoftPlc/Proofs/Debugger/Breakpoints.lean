import Mathlib.Data.List.Induction
import SoftPlc.Proofs.Debugger.Watching

set_option autoImplicit false

namespace SoftPlc.Debugger

open Machine

structure Broken (before after : Debugger) (m : Machine) (outcome : Outcome) : Prop where
  outcome : outcome = .paused
  mode : after.mode = .paused
  reason : after.reason = .breakpoint
  hitAt : after.hitAt = some m.pc
  snapshot : after.snapshot = some (.of m)
  hits : after.hits = before.hits + 1
  suspended : after.suspended = some m.frame

structure Unbroken (after : Debugger) (outcome : Outcome) : Prop where
  passing : after.passing = none
  reason : outcome = .paused → after.reason ≠ .breakpoint

section
variable (b : Bytecode) (maxSteps : UInt32)

-- The first instructions of a run, none of them at a breakpoint but for the one that is to be passed.
structure Executes (d : Debugger) (m : Machine) (n : Nat) : Prop where
  running : ∀ k < n, ((step b)^[k] m).isRunning = true
  free : ∀ k < n, d.hasBreakpoint ((step b)^[k] m).pc = true → k = 0 ∧ d.passing = some m.pc
  single : d.mode = .step → n ≤ 1

inductive Ends (left : Nat) (d : Debugger) (m : Machine) (n : Nat) : Debugger → Machine → Outcome → Prop where
  | broken {after : Debugger} {outcome : Outcome} (stands : d.hasBreakpoint ((step b)^[n] m).pc = true)
      (unarmed : ¬ (n = 0 ∧ d.passing = some m.pc)) (armed : after.passing = some ((step b)^[n] m).pc)
      (broken : Broken d after ((step b)^[n] m) outcome) : Ends left d m n after ((step b)^[n] m) outcome
  | exhausted {after : Debugger} {outcome : Outcome} (spent : n = left)
      (free : d.hasBreakpoint ((step b)^[n] m).pc = true → n = 0 ∧ d.passing = some m.pc)
      (unbroken : Unbroken after outcome) :
      Ends left d m n after { (step b)^[n] m with fault := some (outOfSteps maxSteps) } outcome
  | stopped {after : Debugger} {outcome : Outcome} (moved : 0 < n)
      (single : ((step b)^[n] m).isRunning = true → d.mode = .step) (unbroken : Unbroken after outcome) :
      Ends left d m n after ((step b)^[n] m) outcome

theorem after_step_cases (d : Debugger) (m : Machine) :
    (∃ after outcome, d.afterStep m = (after, some outcome) ∧ (m.isRunning = true → d.mode = .step) ∧
      after.passing = d.passing ∧ (outcome = .paused → after.reason ≠ .breakpoint)) ∨
    (d.afterStep m = ({ d with totalSteps := d.totalSteps + 1 }, none) ∧ m.isRunning = true ∧ d.mode ≠ .step) := by
  unfold afterStep
  by_cases halted : m.halted = true
  · refine .inl ⟨_, .completed, if_pos halted, fun running => ?_, ?_, nofun⟩
    · cases (not_running_of_halted m halted).symm.trans running
    · split <;> rfl
  · have unhalted : m.halted = false := by simpa using halted
    simp only [if_neg halted]
    cases fault : m.fault with
    | some f =>
      refine .inl ⟨_, .faulted f, rfl, fun running => ?_, rfl, nofun⟩
      cases (not_running_of_fault m f fault).symm.trans running
    | none =>
      by_cases single : d.mode = .step
      · refine .inl ⟨_, .paused, if_pos single, fun _ => single, rfl, fun _ => ?_⟩
        by_cases commanded : d.reason = .command
        · simp [suspend, pauseAt, commanded]
        · simp [suspend, pauseAt, commanded]
      · exact .inr ⟨if_neg single, (is_running_iff m).mpr ⟨unhalted, fault⟩, single⟩

theorem stopped_at_broken (d : Debugger) (m : Machine) : Broken d (d.stoppedAt m) m .paused :=
  ⟨rfl, rfl, rfl, rfl, rfl, rfl, rfl⟩

def goneOn (d : Debugger) : Debugger := { d with passing := none, totalSteps := d.totalSteps + 1 }

section
variable (d : Debugger) (m : Machine) (n : Nat)

theorem executes_one (running : m.isRunning = true) (goes : ¬ d.Stops m) : Executes b d m 1 := by
  have only (k : Nat) (less : k < 1) : k = 0 := by omega
  refine ⟨fun k less => ?_, fun k less stands => ?_, fun _ => Nat.le_refl 1⟩
  · rw [only k less]
    exact running
  · rw [only k less] at stands
    exact ⟨only k less, by_contra fun other => goes ⟨stands, other⟩⟩

theorem executes_more (first : Executes b d m 1) (several : d.mode ≠ .step)
    (later : Executes b d.goneOn (m.step b) n) : Executes b d m (n + 1) := by
  refine ⟨fun k less => ?_, fun k less stands => ?_, fun single => absurd single several⟩
  · cases k with
    | zero => exact first.running 0 Nat.one_pos
    | succ k => exact later.running k (by omega)
  · cases k with
    | zero => exact first.free 0 Nat.one_pos stands
    | succ k => cases (later.free k (by omega) stands).2

theorem ends_later (left : Nat) (after : Debugger) (m' : Machine) (outcome : Outcome)
    (later : Ends b maxSteps left d.goneOn (m.step b) n after m' outcome) :
    Ends b maxSteps (left + 1) d m (n + 1) after m' outcome := by
  cases later with
  | broken stands unarmed armed broken =>
    exact .broken stands nofun armed { broken with hits := broken.hits }
  | exhausted spent free unbroken =>
    exact .exhausted (congrArg (· + 1) spent) (fun stands => nomatch (free stands).2) unbroken
  | stopped moved single unbroken => exact .stopped (Nat.succ_pos n) single unbroken

end

theorem watch_ends (left : Nat) (d : Debugger) (m : Machine) (running : m.isRunning = true) :
    ∃ n ≤ left, Executes b d m n ∧ Ends b maxSteps left d m n (watch b maxSteps left d m).1
      (watch b maxSteps left d m).2.1 (watch b maxSteps left d m).2.2 := by
  have watches := watch_watches b maxSteps left d m
  generalize watch b maxSteps left d m = result at watches ⊢
  induction watches with
  | stopped left d m stops =>
    refine ⟨0, Nat.zero_le left, ⟨nofun, nofun, fun _ => Nat.zero_le 1⟩, ?_⟩
    exact .broken stops.1 (fun passed => stops.2 passed.2) rfl (d.stopped_at_broken m)
  | exhausted d m goes =>
    refine ⟨0, Nat.le_refl 0, ⟨nofun, nofun, fun _ => Nat.zero_le 1⟩, ?_⟩
    exact .exhausted rfl (fun stands => ⟨rfl, by_contra fun other => goes ⟨stands, other⟩⟩) ⟨rfl, nofun⟩
  | ended left d after m outcome goes answer =>
    rcases after_step_cases { d with passing := none } (m.step b) with
      ⟨after, outcome, same, single, disarmed, reason⟩ | ⟨same, _, _⟩
    · cases answer.symm.trans same
      exact ⟨1, by omega, executes_one b d m running goes, .stopped Nat.one_pos single ⟨disarmed, reason⟩⟩
    · cases answer.symm.trans same
  | goesOn left d after m result goes answer _ ih =>
    rcases after_step_cases { d with passing := none } (m.step b) with ⟨_, _, same, _, _, _⟩ | ⟨same, still, several⟩
    · cases answer.symm.trans same
    · cases answer.symm.trans same
      obtain ⟨n, within, executed, ended⟩ := ih still
      exact ⟨n + 1, by omega, executes_more b d m n (executes_one b d m running goes) several executed,
        ends_later b maxSteps d m n left _ _ _ ended⟩

theorem executes_counted (d : Debugger) (m : Machine) (n : Nat) (executed : Executes b d m n)
    (room : m.steps.toNat + n < 4294967296) : ((step b)^[n] m).steps.toNat = m.steps.toNat + n := by
  cases n with
  | zero => rfl
  | succ n =>
    have before := executed.running n (Nat.lt_succ_self n)
    rw [Function.iterate_succ_apply', step_counted b _ before, UInt32.toNat_add,
      iterate_counted b m n (by omega) before]
    exact Nat.mod_eq_of_lt (by simpa [Nat.add_assoc] using room)

end

inductive Action where
  | command (c : Command)
  | add (pc : Nat)
  | remove (pc : Nat)
  | clear
  | run (b : Bytecode) (values : List Value) (maxSteps : UInt32)
deriving DecidableEq, Repr

def Action.isRun : Action → Bool
  | .run _ _ _ => true
  | _ => false

def turn (b : Bytecode) (values : List Value) (maxSteps : UInt32) (d : Debugger) : Debugger × Machine × Outcome :=
  (d.nextMachine b values).1.run b maxSteps (d.nextMachine b values).2

def afterAction (d : Debugger) : Action → Debugger
  | .command c => d.apply c
  | .add pc => (d.addBreakpoint pc).2
  | .remove pc => d.removeBreakpoint pc
  | .clear => d.clearBreakpoints
  | .run b values maxSteps => (d.turn b values maxSteps).1

def reached (history : List Action) : Debugger := history.foldl afterAction {}

-- The frame that is suspended after a history was left by a pause at a breakpoint, and stands there.
def BrokeAt (history : List Action) (pc : Nat) : Prop :=
  ∃ earlier b values maxSteps later frame, history = earlier ++ .run b values maxSteps :: later ∧
    (∀ action ∈ later, action.isRun = false) ∧ (reached history).suspended = some frame ∧ frame.pc = pc ∧
    ((reached earlier).turn b values maxSteps).2.2 = .paused ∧
    ((reached earlier).turn b values maxSteps).1.reason = .breakpoint

structure Sane (d : Debugger) : Prop where
  bounded : ∀ frame, d.suspended = some frame → frame.stack.length ≤ bound.depth
  armed : ∀ pc, d.passing = some pc → d.mode ≠ .off

section
variable (b : Bytecode) (values : List Value) (maxSteps : UInt32) (d : Debugger)

theorem next_machine_runs (sane : d.Sane) : (d.nextMachine b values).2.isRunning = true ∧
    (d.nextMachine b values).2.stack.length ≤ bound.depth := by
  unfold nextMachine takeSuspended
  cases suspended : d.suspended with
  | none => exact ⟨rfl, Nat.zero_le _⟩
  | some frame =>
    have room := sane.bounded frame suspended
    simp only [resume, if_neg (Nat.not_lt.mpr room)]
    exact ⟨rfl, room⟩

theorem next_machine_debugger : (d.nextMachine b values).1 = { d with suspended := none } := by
  unfold nextMachine takeSuspended
  cases d.suspended <;> rfl

theorem turn_off (off : d.mode = .off) : (d.turn b values maxSteps).1 = { d with suspended := none } ∧
    (d.turn b values maxSteps).2.2 ≠ .paused := by
  unfold turn Debugger.run
  rw [next_machine_debugger, if_pos off]
  cases answer : ((d.nextMachine b values).2.run b maxSteps).outcome with
  | ok _ =>
    simp only [answer]
    exact ⟨trivial, nofun⟩
  | error f =>
    simp only [answer]
    exact ⟨trivial, nofun⟩

theorem turn_ends (sane : d.Sane) (watched : d.mode ≠ .off) :
    ∃ n ≤ (d.nextMachine b values).2.remaining maxSteps, Executes b d (d.nextMachine b values).2 n ∧
      Ends b maxSteps ((d.nextMachine b values).2.remaining maxSteps) d (d.nextMachine b values).2 n
        (d.turn b values maxSteps).1 (d.turn b values maxSteps).2.1 (d.turn b values maxSteps).2.2 := by
  obtain ⟨running, _⟩ := next_machine_runs b values d sane
  obtain ⟨n, within, executed, ended⟩ := watch_ends b maxSteps ((d.nextMachine b values).2.remaining maxSteps)
    { d with suspended := none } (d.nextMachine b values).2 running
  refine ⟨n, within, ⟨executed.running, executed.free, executed.single⟩, ?_⟩
  unfold turn Debugger.run
  rw [next_machine_debugger, if_neg watched]
  generalize watch b maxSteps _ _ _ = result at ended ⊢
  obtain ⟨after, m', outcome⟩ := result
  cases ended with
  | broken stands unarmed armed broken => exact .broken stands unarmed armed { broken with hits := broken.hits }
  | exhausted spent free unbroken => exact .exhausted spent free unbroken
  | stopped moved single unbroken => exact .stopped moved single unbroken

theorem turn_cases (sane : d.Sane) :
    (d.turn b values maxSteps).1.passing = some (d.turn b values maxSteps).2.1.pc ∧
      Broken d (d.turn b values maxSteps).1 (d.turn b values maxSteps).2.1 (d.turn b values maxSteps).2.2 ∨
    Unbroken (d.turn b values maxSteps).1 (d.turn b values maxSteps).2.2 := by
  by_cases off : d.mode = .off
  · obtain ⟨same, ended⟩ := turn_off b values maxSteps d off
    refine .inr ⟨?_, fun paused => absurd paused ended⟩
    rw [same]
    exact Option.eq_none_iff_forall_ne_some.mpr fun pc armed => sane.armed pc armed off
  · obtain ⟨n, _, _, ended⟩ := turn_ends b values maxSteps d sane off
    generalize d.turn b values maxSteps = result at ended ⊢
    obtain ⟨after, m', outcome⟩ := result
    cases ended with
    | broken stands unarmed armed broken => exact .inl ⟨armed, broken⟩
    | exhausted spent free unbroken => exact .inr unbroken
    | stopped moved single unbroken => exact .inr unbroken

theorem turn_passing (sane : d.Sane) (pc : Nat) : (d.turn b values maxSteps).1.passing = some pc ↔
    (d.turn b values maxSteps).2.2 = .paused ∧ (d.turn b values maxSteps).1.reason = .breakpoint ∧
      ∃ frame, (d.turn b values maxSteps).1.suspended = some frame ∧ frame.pc = pc := by
  rcases turn_cases b values maxSteps d sane with ⟨armed, broken⟩ | unbroken
  · rw [broken.suspended, armed]
    refine ⟨fun same => ⟨broken.outcome, broken.reason, _, rfl, Option.some.inj same⟩, ?_⟩
    rintro ⟨_, _, frame, kept, rfl⟩
    exact Option.some.inj kept ▸ rfl
  · rw [unbroken.passing]
    exact ⟨nofun, fun paused => absurd paused.2.1 (unbroken.reason paused.1)⟩

theorem turn_sane (sane : d.Sane) : (d.turn b values maxSteps).1.Sane := by
  obtain ⟨running, room⟩ := next_machine_runs b values d sane
  have comes : ComesTo b maxSteps _ _ _ (d.turn b values maxSteps).1 (d.turn b values maxSteps).2.1
      (d.turn b values maxSteps).2.2 := run_comes b maxSteps (d.nextMachine b values).1 _ running
  rw [next_machine_debugger] at comes
  refine ⟨fun frame kept => ?_, fun pc armed => ?_⟩
  · cases outcome : (d.turn b values maxSteps).2.2 with
    | paused =>
      rw [outcome] at comes
      obtain ⟨n, _, same, still, waits⟩ := comes
      cases kept.symm.trans waits
      rw [same] at still ⊢
      exact iterate_bounded b _ n room still
    | completed =>
      rw [outcome] at comes
      cases kept.symm.trans comes.2.2
    | faulted f =>
      rw [outcome] at comes
      cases kept.symm.trans comes.2.2.2
  · rcases turn_cases b values maxSteps d sane with ⟨_, broken⟩ | unbroken
    · rw [broken.mode]
      exact nofun
    · cases unbroken.passing.symm.trans armed

end

theorem after_action_suspended (d : Debugger) (action : Action) (idle : action.isRun = false) :
    (d.afterAction action).suspended = d.suspended ∧ (d.afterAction action).passing = d.passing ∨
      (d.afterAction action).suspended = none ∧ (d.afterAction action).passing = none := by
  cases action with
  | command c =>
    cases c with
    | stop => exact .inr ⟨rfl, rfl⟩
    | pause | resume | step => exact .inl ⟨rfl, rfl⟩
  | add pc =>
    obtain ⟨slots, same⟩ := add_breakpoint_others d pc
    rw [afterAction, same]
    exact .inl ⟨rfl, rfl⟩
  | remove pc | clear => exact .inl ⟨rfl, rfl⟩
  | run b values maxSteps => cases idle

theorem after_action_sane (d : Debugger) (action : Action) (sane : d.Sane) : (d.afterAction action).Sane := by
  cases action with
  | command c =>
    cases c with
    | stop => exact ⟨nofun, nofun⟩
    | pause =>
      refine ⟨sane.bounded, fun _ _ => ?_⟩
      simp only [afterAction, apply, Mode.after]
      split <;> exact nofun
    | resume | step => exact ⟨sane.bounded, fun _ _ => nofun⟩
  | add pc =>
    obtain ⟨slots, same⟩ := add_breakpoint_others d pc
    rw [afterAction, same]
    exact ⟨sane.bounded, sane.armed⟩
  | remove pc | clear => exact ⟨sane.bounded, sane.armed⟩
  | run b values maxSteps => exact turn_sane b values maxSteps d sane

theorem reached_sane (history : List Action) : (reached history).Sane :=
  List.foldlRecOn (motive := Sane) history afterAction ⟨nofun, nofun⟩ fun d sane action _ =>
    after_action_sane d action sane

theorem reached_snoc (history : List Action) (action : Action) :
    reached (history ++ [action]) = (reached history).afterAction action := by
  rw [reached, List.foldl_append]
  rfl

theorem broke_at_run (history : List Action) (b : Bytecode) (values : List Value) (maxSteps : UInt32) (pc : Nat) :
    BrokeAt (history ++ [.run b values maxSteps]) pc ↔ ((reached history).turn b values maxSteps).2.2 = .paused ∧
      ((reached history).turn b values maxSteps).1.reason = .breakpoint ∧
      ∃ frame, ((reached history).turn b values maxSteps).1.suspended = some frame ∧ frame.pc = pc := by
  constructor
  · rintro ⟨earlier, b', values', maxSteps', later, frame, whole, idle, kept, stands, paused, reason⟩
    rcases List.eq_nil_or_concat later with rfl | ⟨others, last, rfl⟩
    · obtain ⟨rfl, same⟩ := List.append_inj' whole rfl
      cases same
      rw [reached_snoc] at kept
      exact ⟨paused, reason, frame, kept, stands⟩
    · have split : history ++ [.run b values maxSteps] =
          (earlier ++ .run b' values' maxSteps' :: others) ++ [last] := by simpa using whole
      obtain ⟨_, same⟩ := List.append_inj' split rfl
      cases same
      have ran := idle (.run b values maxSteps) (by simp)
      cases ran
  · rintro ⟨paused, reason, frame, kept, stands⟩
    rw [BrokeAt, reached_snoc]
    exact ⟨history, b, values, maxSteps, [], frame, rfl, nofun, kept, stands, paused, reason⟩

theorem broke_at_idle (history : List Action) (action : Action) (idle : action.isRun = false) (pc : Nat) :
    BrokeAt (history ++ [action]) pc ↔
      BrokeAt history pc ∧ (reached (history ++ [action])).suspended = (reached history).suspended := by
  constructor
  · rintro ⟨earlier, b, values, maxSteps, later, frame, whole, others, kept, stands, paused, reason⟩
    rcases List.eq_nil_or_concat later with rfl | ⟨fewer, last, rfl⟩
    · obtain ⟨_, same⟩ := List.append_inj' whole rfl
      cases same
      cases idle
    · have split : history ++ [action] = (earlier ++ .run b values maxSteps :: fewer) ++ [last] := by simpa using whole
      obtain ⟨rfl, -⟩ := List.append_inj' split rfl
      rw [reached_snoc] at kept ⊢
      rcases after_action_suspended _ action idle with ⟨same, _⟩ | ⟨dropped, _⟩
      · have fewerIdle : ∀ action ∈ fewer, action.isRun = false := fun a member => others a (by simp [member])
        exact ⟨⟨earlier, b, values, maxSteps, fewer, frame, rfl, fewerIdle, same.symm.trans kept, stands, paused,
          reason⟩, same⟩
      · cases dropped.symm.trans kept
  · rintro ⟨⟨earlier, b, values, maxSteps, later, frame, rfl, others, kept, stands, paused, reason⟩, same⟩
    refine ⟨earlier, b, values, maxSteps, later ++ [action], frame, by simp, ?_, same.trans kept, stands, paused,
      reason⟩
    intro other member
    rcases List.mem_append.mp member with before | last
    · exact others other before
    · exact List.mem_singleton.mp last ▸ idle

theorem reached_passing (history : List Action) (pc : Nat) :
    (reached history).passing = some pc ↔ BrokeAt history pc := by
  induction history using List.reverseRecOn with
  | nil =>
    refine ⟨nofun, ?_⟩
    rintro ⟨earlier, _, _, _, _, _, none, _⟩
    cases earlier <;> cases none
  | append_singleton history action ih =>
    by_cases runs : action.isRun = true
    · cases action with
      | run b values maxSteps =>
        rw [broke_at_run, reached_snoc]
        exact turn_passing b values maxSteps _ (reached_sane history) pc
      | _ => cases runs
    · have idle : action.isRun = false := by simpa using runs
      rw [broke_at_idle history action idle, ← ih, reached_snoc]
      rcases after_action_suspended (reached history) action idle with ⟨kept, same⟩ | ⟨dropped, none⟩
      · rw [kept, same]
        exact ⟨fun armed => ⟨armed, rfl⟩, And.left⟩
      · rw [dropped, none]
        refine ⟨nofun, ?_⟩
        rintro ⟨armed, gone⟩
        obtain ⟨_, _, _, _, _, frame, _, _, kept, _⟩ := ih.mp armed
        cases gone.trans kept

-- A run of n instructions after any history. Where it executes one that has a breakpoint, that is its
-- first, and the frame that it goes on from was left by a pause at this breakpoint. Wherever else it
-- comes to one, it stops in front of it. With single steps a run has come to an end behind its first
-- instruction: what is there is what the next run begins with.
theorem breakpoints_are_not_passed (history : List Action) (b : Bytecode) (values : List Value) (maxSteps : UInt32)
    (watched : (reached history).mode ≠ .off) :
    let d := reached history
    let m := (d.nextMachine b values).2
    let result := d.turn b values maxSteps
    ∃ n, result.2.1.steps.toNat = m.steps.toNat + n ∧
      (result.2.1 = (step b)^[n] m ∨ result.2.1 = { (step b)^[n] m with fault := some (outOfSteps maxSteps) }) ∧
      (∀ k < n, ((step b)^[k] m).isRunning = true ∧
        (d.hasBreakpoint ((step b)^[k] m).pc = true → k = 0 ∧ BrokeAt history m.pc)) ∧
      ∀ k ≤ n, ((step b)^[k] m).isRunning = true → (k = 0 ∨ d.mode ≠ .step) →
        d.hasBreakpoint ((step b)^[k] m).pc = true → ¬ (k = 0 ∧ BrokeAt history m.pc) →
        result.2.1 = (step b)^[k] m ∧ Broken d result.1 result.2.1 result.2.2 := by
  intro d m result
  have passing : d.passing = some m.pc ↔ BrokeAt history m.pc := reached_passing history m.pc
  obtain ⟨n, within, executed, ended⟩ := turn_ends b values maxSteps d (reached_sane history) watched
  have counted : ((step b)^[n] m).steps.toNat = m.steps.toNat + n := by
    refine executes_counted b d m n executed ?_
    have fewer : n ≤ maxSteps.toNat - m.steps.toNat := within
    have limit := maxSteps.toNat_lt
    have counter := m.steps.toNat_lt
    omega
  have free (k : Nat) (less : k < n) (stands : d.hasBreakpoint ((step b)^[k] m).pc = true) :
      k = 0 ∧ BrokeAt history m.pc := (executed.free k less stands).imp_right passing.mp
  have outside (k : Nat) (within : k ≤ n) (stands : d.hasBreakpoint ((step b)^[k] m).pc = true)
      (other : ¬ (k = 0 ∧ BrokeAt history m.pc)) : k = n :=
    by_contra fun apart => other (free k (by omega) stands)
  have ended : Ends b maxSteps (m.remaining maxSteps) d m n result.1 result.2.1 result.2.2 := ended
  clear_value result
  obtain ⟨after, m', outcome⟩ := result
  refine ⟨n, ?_, ?_, fun k less => ⟨executed.running k less, free k less⟩,
    fun k within running several stands other => ?_⟩
  · cases ended <;> exact counted
  · cases ended with
    | broken | stopped => exact .inl rfl
    | exhausted => exact .inr rfl
  · have last := outside k within stands other
    subst last
    cases ended with
    | broken _ _ _ broken => exact ⟨rfl, broken⟩
    | exhausted _ passes _ => exact absurd ((passes stands).imp_right passing.mp) other
    | stopped moved single _ =>
      rcases several with first | several
      · exact absurd first (Nat.ne_of_gt moved)
      · exact absurd (single running) several

def counter : Bytecode where
  name := none
  code := [.load 0, .push (.int 1), .binary .add .int, .store 0, .jump 0]
  vars := [{ name := "N", dataType := .int, variableClass := .ordinary, exported := false, initial := .int 0 }]

def counterStopped : List Action := [.add 2, .command .resume, .run counter [] 100, .command .resume]

theorem counter_stops_in_every_round :
    (reached counterStopped).mode ≠ .off ∧ BrokeAt counterStopped 2 ∧
      ((reached counterStopped).turn counter [] 100).2.1.pc = 2 ∧
      ((reached counterStopped).turn counter [] 100).1.hits = 2 ∧
      Broken (reached counterStopped) ((reached counterStopped).turn counter [] 100).1
        ((reached counterStopped).turn counter [] 100).2.1 ((reached counterStopped).turn counter [] 100).2.2 := by
  have watched : (reached counterStopped).mode ≠ .off := by decide +kernel
  have broke : BrokeAt counterStopped 2 := (reached_passing _ _).mp (by decide +kernel)
  obtain ⟨n, counted, _, _, stops⟩ := breakpoints_are_not_passed counterStopped counter [] 100 watched
  have five : n = 5 := by
    have steps : ((reached counterStopped).turn counter [] 100).2.1.steps.toNat =
        ((reached counterStopped).nextMachine counter []).2.steps.toNat + 5 := by decide +kernel
    omega
  subst five
  refine ⟨watched, broke, by decide +kernel, by decide +kernel, (stops 5 (Nat.le_refl 5) ?_ ?_ ?_ nofun).2⟩
  · decide +kernel
  · exact .inr (by decide +kernel)
  · decide +kernel

end SoftPlc.Debugger
