import SoftPlc.Proofs.Controller.Published

set_option autoImplicit false

namespace SoftPlc.Controller

-- A program without a completed run: its values are those that the inputs have given it, its times
-- and the count of its runs are those of before, and nobody has written to its export registers.
structure Rests (c after : Controller) (i : Fin slotCount) (r left : Registers) : Prop where
  values : (after.programs.get i).values = ((c.readInputs r).programs.get i).values
  runs : (after.programs.get i).statistics.runs = (c.programs.get i).statistics.runs
  exports : ∀ a, c.exports.allocation? i = some a → r.Agree left (220 + a.offset.toNat) (220 + a.behind)

structure Faultless (c after : Controller) (i : Fin slotCount) : Prop where
  errors : (after.programs.get i).statistics.errors = (c.programs.get i).statistics.errors
  lastError : (after.programs.get i).lastError = (c.programs.get i).lastError

section
variable (c : Controller) (exporting : c.Exporting)
include exporting

theorem run_slots_agree (i : Fin slotCount) (slots : List (Fin slotCount)) (r : Registers) (a : Allocation)
    (found : c.exports.allocation? i = some a)
    (unfinished : ∀ us, ProgramRun.completed us ∉ runsOf i (c.runSlots r slots).1) :
    r.Agree (c.runSlots r slots).2.2 (220 + a.offset.toNat) (220 + a.behind) := by
  induction slots generalizing c r with
  | nil => exact fun _ _ _ => rfl
  | cons j rest ih =>
    have quiet := c.quiet_run_slot j r
    simp only [run_slots_cons, runs_of_append, List.mem_append, not_or] at unfinished
    have turn : r.Agree (c.runSlot j r).2.2 (220 + a.offset.toNat) (220 + a.behind) := by
      by_cases here : j = i
      · subst here
        rcases c.run_slot_registers j r with ⟨b, us, completed, _⟩ | ⟨same, _⟩
        · have mine := (unfinished us).1
          rw [runs_of_self, completed] at mine
          exact absurd List.mem_cons_self mine
        · rw [same]
          exact fun _ _ _ => rfl
      · exact c.run_slot_agree exporting j i r here a found
    exact Registers.agree_trans _ _ _ _ _ turn
      (ih _ (c.quiet_exporting _ quiet exporting) _ (quiet.exports ▸ found) fun us => (unfinished us).2)

theorem cycle_at_slice (i : Fin slotCount) (now : UInt64) (r : Registers) (a : Allocation)
    (found : c.exports.allocation? i = some a)
    (unfinished : ∀ us, ProgramRun.completed us ∉ runsOf i (c.cycleAt now r).1.runs) :
    r.Agree (c.cycleAt now r).2.2 (220 + a.offset.toNat) (220 + a.behind) := by
  have behind := c.cycle_at_agree exporting now r
  have within := (exporting.pool.inside i a found).2
  have read := c.quiet_exporting _ (c.quiet_begun now r) exporting
  obtain ⟨_, _, _, _, answer⟩ := c.cycle_at_turns now r
  have turned : r.Agree (c.turns now r).2.2 (220 + a.offset.toNat) (220 + a.behind) := by
    rw [answer] at unfinished
    unfold turns at unfinished ⊢
    exact run_slots_agree _ read i _ r a found unfinished
  intro address low high
  exact (behind address (by omega) (by omega)).trans (turned address low high)

theorem tick_slice (i : Fin slotCount) (r left : Registers) (report : Report) (after : Controller)
    (fired : c.tick r = (some report, after, left)) (a : Allocation) (found : c.exports.allocation? i = some a)
    (unfinished : ∀ us, ProgramRun.completed us ∉ runsOf i report.runs) :
    r.Agree left (220 + a.offset.toNat) (220 + a.behind) := by
  have quiet : c.readClock.2.Exporting := ⟨exporting.pool, exporting.sized, exporting.checked⟩
  have slice := cycle_at_slice c.readClock.2 quiet i c.clock.now r a found
  rw [c.tick_fired r left report after fired] at slice
  exact slice unfinished

end

theorem tick_program (c : Controller) (i : Fin slotCount) (r left : Registers) (report : Report) (after : Controller)
    (fired : c.tick r = (some report, after, left)) :
    (after.programs.get i = (c.readInputs r).programs.get i ∧ (runsOf i report.runs = [.paused] ∨
      runsOf i report.runs = [] ∧ ((c.programs.get i).bytecode = none ∨ (c.programs.get i).enabled = false))) ∨
    ∃ b us, (c.programs.get i).bytecode = some b ∧
      runsOf i report.runs = [Slot.reported us ((c.readInputs r).ran i b).2.2] ∧
      after.programs.get i = Slot.settle ((c.readInputs r).programs.get i) ((c.readInputs r).ran i b).2.1 us
        c.settings.interval.milliseconds ((c.readInputs r).ran i b).2.2 := by
  obtain ⟨us, runs, turned⟩ := c.tick_turn i r left report after fired
  have program := congrArg Slot.program turned
  have read := c.read_inputs_program i r
  rcases Slot.turn_cases c.settings us ((c.readInputs r).slot i) with
    ⟨answer, idle⟩ | ⟨b, compiled, _, ⟨_, answer⟩ | ⟨_, answer⟩⟩
  · rw [answer] at runs program
    refine .inl ⟨program, .inr ⟨runs, ?_⟩⟩
    simpa only [slot, read] using idle
  · rw [answer] at runs program
    exact .inl ⟨program, .inl runs⟩
  · rw [answer] at runs program
    exact .inr ⟨b, us, by simpa only [slot, read] using compiled, runs, program⟩

-- Each program has one entry in the report of a cycle or none, and its outcome settles all that the
-- cycle leaves of it. A completed run is taken over whole: the values are the final variables of the
-- machine, and the run is counted. A fault is counted, with the front of its text noted; it and
-- a pause keep nothing else of their run, no more than a program that had none.
theorem cycle_is_all_or_nothing (c : Controller) (reachable : Reachable c) (i : Fin slotCount) (r left : Registers)
    (report : Report) (after : Controller) (fired : c.tick r = (some report, after, left)) :
    (∃ b us, runsOf i report.runs = [.completed us] ∧ (c.programs.get i).bytecode = some b ∧
      ((c.readInputs r).ran i b).2.2 = .completed ∧
      (after.programs.get i).values = ((c.readInputs r).ran i b).2.1.vars ∧
      (after.programs.get i).statistics.runs.count = (c.programs.get i).statistics.runs.count + 1 ∧
      Faultless c after i) ∨
    (∃ b f, runsOf i report.runs = [.faulted f] ∧ (c.programs.get i).bytecode = some b ∧
      ((c.readInputs r).ran i b).2.2 = .faulted f ∧ Rests c after i r left ∧
      (after.programs.get i).statistics.errors = (c.programs.get i).statistics.errors + 1 ∧
      (after.programs.get i).lastError = some (String.ofList (f.render.toList.take 64))) ∨
    ((runsOf i report.runs = [.paused] ∨
        runsOf i report.runs = [] ∧ ((c.programs.get i).bytecode = none ∨ (c.programs.get i).enabled = false)) ∧
      Rests c after i r left ∧ Faultless c after i) := by
  have slice := c.tick_slice (reachable_exporting c reachable) i r left report after fired
  have read := c.read_inputs_program i r
  have rests (same : after.programs.get i = (c.readInputs r).programs.get i)
      (unfinished : ∀ us, ProgramRun.completed us ∉ runsOf i report.runs) : Rests c after i r left ∧ Faultless c after i := by
    refine ⟨⟨by rw [same], ?_, fun a found => slice a found unfinished⟩, ?_, ?_⟩
    all_goals rw [same, read]
  rcases c.tick_program i r left report after fired with ⟨same, runs⟩ | ⟨b, us, compiled, runs, same⟩
  · refine .inr (.inr ⟨runs, rests same fun us => ?_⟩)
    rcases runs with paused | ⟨none, _⟩
    · simp [paused]
    · simp [none]
  · cases ended : ((c.readInputs r).ran i b).2.2 with
    | completed =>
      rw [ended] at runs same
      refine .inl ⟨b, us, runs, compiled, ended, ?_, ?_, ?_, ?_⟩
      all_goals
        rw [same]
        simp only [Slot.settle, Timing.record, read]
    | faulted f =>
      rw [ended] at runs same
      have unfinished (us : UInt32) : ProgramRun.completed us ∉ runsOf i report.runs := by simp [runs, Slot.reported]
      refine .inr (.inl ⟨b, f, runs, compiled, ended, ⟨?_, ?_, fun a found => slice a found unfinished⟩, ?_, ?_⟩)
      all_goals
        rw [same]
        simp only [Slot.settle, LogicProgram.setError, read]
      rfl
    | paused =>
      rw [ended] at runs same
      exact .inr (.inr ⟨.inl runs, rests same (by simp [runs, Slot.reported])⟩)

def spoiledTotal : String := "VAR total : INT EXPORT := 3; parts : INT; END_VAR total := 7; total := total / parts;"

def storingSpoiled : Controller := Controller.after {} (.upload firstSlot spoiledTotal.toUTF8.toList)

-- A total that is exported and set before the run divides by zero: neither the value of before nor
-- the register, which somebody else has written to, is touched.
theorem spoiled_total_rests :
    let c := started (storingSpoiled.after (.compile firstSlot))
    let r := Registers.setInput {} 220 99
    Reachable c ∧ ∃ report next left f, c.tick r = (some report, next, left) ∧
      runsOf firstSlot report.runs = [.faulted f] ∧ Rests c next firstSlot r left ∧
      (next.programs.get firstSlot).lastError = some (String.ofList (f.render.toList.take 64)) := by
  intro c r
  have reachable : Reachable c := .after _ _ (.after _ _ (.after _ _ (.after _ _ (.initial {} {}))))
  have source : storingSpoiled.sources.source? firstSlot = some spoiledTotal.toUTF8.toList := by decide +kernel
  obtain ⟨b, compiled, before, counted, answered⟩ := Compile.accepted_with spoiledTotal
    (fun b => let c := started ((storingSpoiled.vacated firstSlot).install firstSlot b)
      (c.programs.get firstSlot).statistics.errors = 0 ∧
        ((c.tick r).2.1.programs.get firstSlot).statistics.errors = 1 ∧ (c.tick r).1.isSome = true)
    (by decide +kernel)
  have state : c = started ((storingSpoiled.vacated firstSlot).install firstSlot b) :=
    congrArg started (storingSpoiled.compile_installs firstSlot spoiledTotal b source compiled)
  simp only [← state] at before counted answered
  obtain ⟨report, given⟩ := Option.isSome_iff_exists.mp answered
  have ticked : c.tick r = (some report, (c.tick r).2.1, (c.tick r).2.2) := Prod.ext given rfl
  have faulted (faultless : Faultless c (c.tick r).2.1 firstSlot) : False := by
    have same := faultless.errors
    rw [before, counted] at same
    cases same
  rcases cycle_is_all_or_nothing c reachable firstSlot r _ report _ ticked with
    ⟨_, _, _, _, _, _, _, faultless⟩ | ⟨_, f, runs, _, _, rests, _, noted⟩ | ⟨_, _, faultless⟩
  · exact (faulted faultless).elim
  · exact ⟨reachable, report, _, _, f, ticked, runs, rests, noted⟩
  · exact (faulted faultless).elim

end SoftPlc.Controller
