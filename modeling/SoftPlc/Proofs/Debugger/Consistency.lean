import SoftPlc.Proofs.Debugger.Slots

set_option autoImplicit false

namespace SoftPlc.Debugger

open Machine

def Snapshot.Shows (s : Snapshot) (frame : Frame) : Prop :=
  s.pc = frame.pc ∧ s.stack = frame.stack ∧ s.vars = frame.vars ∧ s.steps = frame.steps

structure Consistent (d : Debugger) : Prop where
  paused : d.mode = .paused ↔ d.snapshot.isSome = true
  off : d.mode = .off → d.snapshot = none ∧ d.suspended = none
  shows : ∀ s frame, d.snapshot = some s → d.suspended = some frame → s.Shows frame
  passing : ∀ pc, d.passing = some pc → ∃ frame, d.suspended = some frame ∧ frame.pc = pc

section
variable (d : Debugger) (m : Machine)

theorem initial_consistent : Consistent {} := ⟨by decide, fun _ => ⟨rfl, rfl⟩, nofun, nofun⟩

theorem pause_at_consistent (reason : Reason) (clear : d.suspended = none) (disarmed : d.passing = none) :
    (d.pauseAt m reason).Consistent := by
  refine ⟨⟨fun _ => rfl, fun _ => rfl⟩, nofun, fun s frame _ kept => ?_, fun pc armed => ?_⟩
  · cases clear.symm.trans kept
  · cases disarmed.symm.trans armed

theorem suspend_consistent (reason : Reason) (armed : ∀ pc, d.passing = some pc → m.pc = pc) :
    (d.suspend m reason).Consistent := by
  refine ⟨⟨fun _ => rfl, fun _ => rfl⟩, nofun, fun s frame shown kept => ?_, fun pc passes => ?_⟩
  · cases shown
    cases kept
    exact ⟨rfl, rfl, rfl, rfl⟩
  · exact ⟨m.frame, rfl, armed pc passes⟩

structure Idle (d : Debugger) : Prop where
  paused : d.mode = .paused ↔ d.snapshot.isSome = true
  watched : d.mode ≠ .off
  suspended : d.suspended = none
  passing : d.passing = none

theorem idle_consistent (idle : d.Idle) : d.Consistent := by
  refine ⟨idle.paused, fun off => absurd off idle.watched, fun s frame _ kept => ?_, fun pc armed => ?_⟩
  · cases idle.suspended.symm.trans kept
  · cases idle.passing.symm.trans armed

theorem after_step_consistent (idle : d.Idle) :
    (d.afterStep m).1.Consistent ∧ ((d.afterStep m).2 = none → (d.afterStep m).1.Idle) := by
  have counted : ({ d with totalSteps := d.totalSteps + 1 } : Debugger).Idle :=
    ⟨idle.paused, idle.watched, idle.suspended, idle.passing⟩
  unfold afterStep
  by_cases halted : m.halted = true
  · simp only [if_pos halted]
    refine ⟨?_, nofun⟩
    split
    · exact pause_at_consistent _ m .halt counted.suspended counted.passing
    · exact idle_consistent _ counted
  · simp only [if_neg halted]
    cases m.fault with
    | some f => exact ⟨pause_at_consistent _ m .fault counted.suspended counted.passing, nofun⟩
    | none =>
      by_cases single : d.mode = .step
      · simp only [if_pos single]
        refine ⟨suspend_consistent _ m _ fun pc armed => ?_, nofun⟩
        cases counted.passing.symm.trans armed
      · simp only [if_neg single]
        exact ⟨idle_consistent _ counted, fun _ => counted⟩

end

section
variable (b : Bytecode) (maxSteps : UInt32)

-- Only the first look of a run can find something that is to be passed.
theorem watch_consistent (left : Nat) (d : Debugger) (m : Machine) (idle : ({ d with passing := none } : Debugger).Idle) :
    (watch b maxSteps left d m).1.Consistent := by
  have watches := watch_watches b maxSteps left d m
  generalize watch b maxSteps left d m = result at watches ⊢
  induction watches with
  | stopped left d m _ => exact suspend_consistent _ m _ fun _ armed => Option.some.inj armed
  | exhausted d m _ => exact pause_at_consistent _ _ _ idle.suspended rfl
  | ended left d after m outcome _ answer =>
    have left := (after_step_consistent _ (m.step b) idle).1
    rwa [answer] at left
  | goesOn left d after m result _ answer _ ih =>
    have next := (after_step_consistent _ (m.step b) idle).2
    rw [answer] at next
    have next := next rfl
    exact ih ⟨next.paused, next.watched, next.suspended, rfl⟩

theorem run_off (d : Debugger) (m : Machine) (off : d.mode = .off) : (d.run b maxSteps m).1 = d := by
  rw [Debugger.run, if_pos off]
  simp only
  split <;> rfl

theorem run_consistent (d : Debugger) (m : Machine) (consistent : d.Consistent) :
    (({ d with suspended := none } : Debugger).run b maxSteps m).1.Consistent := by
  by_cases off : d.mode = .off
  · rw [run_off b maxSteps { d with suspended := none } m off]
    obtain ⟨hidden, absent⟩ := consistent.off off
    refine ⟨consistent.paused, fun _ => ⟨hidden, rfl⟩, nofun, fun pc armed => ?_⟩
    obtain ⟨frame, kept, _⟩ := consistent.passing pc armed
    cases absent.symm.trans kept
  · rw [Debugger.run, if_neg off]
    exact watch_consistent b maxSteps _ _ m ⟨consistent.paused, off, rfl, rfl⟩

theorem turn_consistent (values : List Value) (d : Debugger) (consistent : d.Consistent) :
    (d.turn b values maxSteps).1.Consistent := by
  unfold turn
  rw [next_machine_debugger]
  exact run_consistent b maxSteps d _ consistent

end

theorem apply_consistent (d : Debugger) (c : Command) (consistent : d.Consistent) : (d.apply c).Consistent := by
  cases c with
  | pause =>
    -- a debugger that is paused stays so, and no other becomes so
    have stays : (d.apply .pause).mode = .paused ↔ d.mode = .paused := by simp [apply, Mode.after]
    refine ⟨stays.trans consistent.paused, fun off => ?_, consistent.shows, consistent.passing⟩
    simp only [apply, Mode.after] at off
    split at off <;> cases off
  | resume | step =>
    refine ⟨?_, ?_, ?_, consistent.passing⟩
    all_goals simp [apply, Mode.after]
  | stop =>
    refine ⟨?_, fun _ => ⟨rfl, rfl⟩, ?_, ?_⟩
    all_goals simp [apply, Mode.after]

theorem after_action_consistent (d : Debugger) (action : Action) (consistent : d.Consistent) :
    (d.afterAction action).Consistent := by
  have marked (slots : List (Option Nat)) : ({ d with slots } : Debugger).Consistent :=
    ⟨consistent.paused, consistent.off, consistent.shows, consistent.passing⟩
  cases action with
  | command c => exact apply_consistent d c consistent
  | add pc =>
    obtain ⟨slots, same⟩ := add_breakpoint_others d pc
    rw [afterAction, same]
    exact marked slots
  | remove pc | clear => exact marked _
  | run b values maxSteps => exact turn_consistent b maxSteps values d consistent

def Action.mark (s : Finset Nat) : Action → Finset Nat
  | .add pc => if s.card < maxBreakpoints then insert pc s else s
  | .remove pc => s.erase pc
  | .clear => ∅
  | .command _ | .run _ _ _ => s

section
variable (d : Debugger) (s : Finset Nat) (marks : Mark d.slots s)
include marks

theorem has_breakpoint_iff (pc : Nat) : d.hasBreakpoint pc = true ↔ pc ∈ s := by
  rw [← mark_mem pc d.slots s marks, hasBreakpoint, List.contains_iff_mem]

theorem add_breakpoint_iff (pc : Nat) : (d.addBreakpoint pc).1 = true ↔ pc ∈ s ∨ s.card < maxBreakpoints := by
  unfold addBreakpoint
  rw [← has_breakpoint_iff d s marks pc, ← mark_room d.slots s marks, ← fill_slot_free pc d.slots]
  by_cases present : d.hasBreakpoint pc = true
  · simp [present]
  · cases fillSlot pc d.slots <;> simp [present]

theorem add_breakpoint_marks (pc : Nat) : Mark (d.addBreakpoint pc).2.slots (Action.mark s (.add pc)) := by
  unfold addBreakpoint Action.mark
  by_cases present : d.hasBreakpoint pc = true
  · have inside := (has_breakpoint_iff d s marks pc).mp present
    simpa only [if_pos present, Finset.insert_eq_of_mem inside, ite_self] using marks
  · have fresh := mt (has_breakpoint_iff d s marks pc).mpr present
    rw [if_neg present]
    cases found : fillSlot pc d.slots with
    | none =>
      have full : ¬ s.card < maxBreakpoints := by
        rw [← mark_room d.slots s marks, ← fill_slot_free pc, found]
        exact Bool.false_ne_true
      simpa only [if_neg full] using marks
    | some filled =>
      have room : s.card < maxBreakpoints := by
        rw [← mark_room d.slots s marks, ← fill_slot_free pc, found]
        rfl
      simpa only [if_pos room] using mark_fill pc d.slots s marks filled fresh found

theorem after_action_marks (action : Action) : Mark (d.afterAction action).slots (action.mark s) := by
  cases action with
  | command c =>
    rw [afterAction, apply_slots]
    exact marks
  | add pc => exact add_breakpoint_marks d s marks pc
  | remove pc => exact mark_clear pc d.slots s marks
  | clear => exact mark_nothing
  | run b values maxSteps =>
    rw [afterAction, turn, run_slots, next_machine_debugger]
    exact marks

end

theorem reached_marks (history : List Action) : Mark (reached history).slots (history.foldl Action.mark ∅) := by
  induction history using List.reverseRecOn with
  | nil => exact mark_nothing
  | append_singleton history action ih =>
    rw [reached_snoc, List.foldl_append]
    exact after_action_marks _ _ ih action

theorem reached_consistent (history : List Action) : (reached history).Consistent :=
  List.foldlRecOn (motive := Consistent) history afterAction initial_consistent fun d consistent action _ =>
    after_action_consistent d action consistent

theorem breakpoints_slots (d : Debugger) : d.breakpoints.map (·.2) = d.slots.reduceOption := by
  have listed (entry : Option Nat × Nat) : (entry.1.map (entry.2, ·)).map (·.2) = entry.1 := by
    cases entry.1 <;> rfl
  rw [breakpoints, List.map_filterMap, List.reduceOption]
  conv_rhs => rw [← List.zipIdx_map_fst 0 d.slots, List.filterMap_map]
  exact List.filterMap_congr fun entry _ => listed entry

-- Behind any history, with the set that the breakpoint edits in it come to.
theorem debugger_fits_together (history : List Action) :
    let d := reached history
    let s := history.foldl Action.mark ∅
    d.Consistent ∧ (d.breakpoints.map (·.2)).Nodup ∧ (d.breakpoints.map (·.2)).toFinset = s ∧
      s.card = d.breakpoints.length ∧ s.card ≤ maxBreakpoints ∧
      ∀ pc, (d.hasBreakpoint pc = true ↔ pc ∈ s) ∧
        ((d.addBreakpoint pc).1 = true ↔ pc ∈ s ∨ s.card < maxBreakpoints) ∧
        ((d.addBreakpoint pc).1 = false → (d.addBreakpoint pc).2 = d) ∧
        (d.removeBreakpoint pc).hasBreakpoint pc = false := by
  intro d s
  have marks : Mark d.slots s := reached_marks history
  have listed := breakpoints_slots d
  have count : d.breakpoints.length = d.slots.reduceOption.length := by rw [← listed, List.length_map]
  rw [listed, count]
  refine ⟨reached_consistent history, marks.distinct, marks.members, (mark_card d.slots s marks).symm, ?_, fun pc => ?_⟩
  · rw [← mark_card d.slots s marks, ← marks.length]
    exact List.reduceOption_length_le d.slots
  · refine ⟨has_breakpoint_iff d s marks pc, add_breakpoint_iff d s marks pc, add_breakpoint_refused d pc, ?_⟩
    have removed := has_breakpoint_iff (d.removeBreakpoint pc) (s.erase pc) (mark_clear pc d.slots s marks) pc
    simpa using removed

end SoftPlc.Debugger
