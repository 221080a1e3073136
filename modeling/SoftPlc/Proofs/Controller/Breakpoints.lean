import Mathlib.Data.List.Induction
import SoftPlc.Proofs.Controller.Published
import SoftPlc.Proofs.Debugger.Slots

set_option autoImplicit false

namespace SoftPlc

namespace Controller

section
variable (c : Controller)

def StandsAt (i : Fin slotCount) (pc : Nat) : Prop := some pc ∈ (c.debuggers.get i).slots

def Addressed : Prop :=
  ∀ i pc, c.StandsAt i pc → ∃ b, (c.programs.get i).bytecode = some b ∧ pc < b.code.length

-- What the slot would run if it were compiled now has instructions at all of its breakpoints.
def NextCovers (id : Nat) : Prop :=
  ∀ i : Fin slotCount, i.val = id → ∀ pc, c.StandsAt i pc → ∃ b, c.compileSource id = .ok b ∧ pc < b.code.length

theorem addressed_initial (settings : Settings) (clock : Clock) : Addressed { settings, clock } := by
  intro i pc stands
  rw [StandsAt, Slots.get_replicate] at stands
  cases List.eq_of_mem_replicate stands

theorem stands_put (next : Controller) (i : Fin slotCount) (d : Debugger)
    (debuggers : next.debuggers = c.debuggers.put i d) (fewer : ∀ pc, some pc ∈ d.slots → c.StandsAt i pc)
    (j : Fin slotCount) (pc : Nat) (stands : next.StandsAt j pc) : c.StandsAt j pc := by
  rw [StandsAt, debuggers] at stands
  by_cases here : i = j
  · subst here
    rw [Slots.get_put_self] at stands
    exact fewer pc stands
  · rwa [Slots.get_put_other _ i j d here] at stands

theorem stands_on_debugger (id : Nat) (f : Debugger → Debugger)
    (fewer : ∀ d pc, some pc ∈ (f d).slots → some pc ∈ d.slots) (j : Fin slotCount) (pc : Nat)
    (stands : (c.onDebugger id f).2.StandsAt j pc) : c.StandsAt j pc := by
  revert stands
  apply c.with_slot_keeps (fun next => next.StandsAt j pc → c.StandsAt j pc) id
  · exact fun stands => stands
  · exact fun i _ => c.stands_put _ i _ rfl (fewer _) j pc

theorem delete_stands (id : Nat) (j : Fin slotCount) (pc : Nat) (stands : (c.delete id).2.StandsAt j pc) :
    c.StandsAt j pc ∧ (c.delete id).2.programs.get j = c.programs.get j := by
  revert stands
  apply c.with_slot_keeps (fun next => next.StandsAt j pc →
    c.StandsAt j pc ∧ next.programs.get j = c.programs.get j) id
  · exact fun stands => ⟨stands, rfl⟩
  · intro i _ stands
    by_cases here : i = j
    · subst here
      rw [StandsAt, Slots.get_put_self] at stands
      exact absurd stands (Debugger.cleared_slots _ pc)
    · rw [StandsAt, Slots.get_put_other _ i j _ here] at stands
      exact ⟨stands, Slots.get_put_other _ i j _ here⟩

theorem load_stands (blob : Bytes) (j : Fin slotCount) (pc : Nat) (stands : (c.load blob).2.StandsAt j pc) :
    c.StandsAt j pc ∧ (c.load blob).2.programs.get j = c.programs.get j := by
  revert stands
  apply c.load_keeps (fun next => next.StandsAt j pc → c.StandsAt j pc ∧ next.programs.get j = c.programs.get j)
  · exact fun stands => ⟨stands, rfl⟩
  · intro k sources stands
    rw [StandsAt, take_over_debugger] at stands
    exact absurd stands (Debugger.cleared_slots _ pc)

theorem tick_stands (r : Registers) (j : Fin slotCount) (pc : Nat) (stands : (c.tick r).2.1.StandsAt j pc) :
    c.StandsAt j pc := by
  rcases c.tick_debugger j r with same | ⟨b, _, same⟩
  · rwa [StandsAt, same] at stands
  · rw [StandsAt, same, Slot.run, Debugger.run_slots, Debugger.next_machine_debugger] at stands
    exact stands

theorem add_breakpoint_stands (id pc : Nat) (j : Fin slotCount) (at' : Nat)
    (stands : (c.addBreakpoint id pc).2.StandsAt j at') :
    c.StandsAt j at' ∨ ∃ b, (c.programs.get j).bytecode = some b ∧ at' < b.code.length := by
  revert stands
  apply c.with_slot_keeps (fun next => next.StandsAt j at' →
    c.StandsAt j at' ∨ ∃ b, (c.programs.get j).bytecode = some b ∧ at' < b.code.length) id
  · exact .inl
  · intro i _ stands
    cases compiled : (c.programs.get i).bytecode with
    | none =>
      simp only [compiled] at stands
      exact .inl stands
    | some b =>
      simp only [compiled] at stands
      by_cases inside : pc < b.code.length
      · simp only [if_pos inside] at stands
        by_cases here : i = j
        · subst here
          rw [StandsAt, setDebugger, Slots.get_put_self] at stands
          obtain old | rfl := Debugger.add_breakpoint_new _ pc at' stands
          · exact .inl old
          · exact .inr ⟨b, compiled, inside⟩
        · rw [StandsAt, setDebugger, Slots.get_put_other _ i j _ here] at stands
          exact .inl stands
      · simp only [if_neg inside] at stands
        exact .inl stands

theorem set_bindings_bytecode (i j : Fin slotCount) (table : Bindings) :
    ((c.setBindings i table).programs.get j).bytecode = (c.programs.get j).bytecode := by
  by_cases here : i = j
  · subst here
    rw [setBindings, Slots.get_put_self]
  · rw [setBindings, Slots.get_put_other _ i j _ here]

def Call.MovesBytecode : Call → Prop
  | .compile _ | .delete _ | .load _ => True
  | _ => False

theorem after_bytecode (call : Call) (stays : ¬ call.MovesBytecode) (j : Fin slotCount) :
    ((c.after call).programs.get j).bytecode = (c.programs.get j).bytecode := by
  by_cases tends : call.Tends
  · exact ((c.after_tended call tends).programs j).bytecode
  · cases call with
    | compile _ | delete _ | load _ => exact absurd trivial stays
    | bind id name target =>
      exact c.bind_keeps (fun next => (next.programs.get j).bytecode = _) id name target rfl fun i _ _ =>
        c.set_bindings_bytecode i j _
    | unbind id name =>
      exact c.with_slot_keeps (fun next => (next.programs.get j).bytecode = _) id _ rfl fun i _ =>
        c.set_bindings_bytecode i j _
    | compactExports => rfl
    | tick r => exact (c.quiet_tick r).bytecode j
    | _ => exact absurd trivial tends

def Call.MovesDebuggers : Call → Prop
  | .compile _ | .delete _ | .load _ | .command .. | .pauseAll | .addBreakpoint .. | .removeBreakpoint ..
  | .clearBreakpoints _ | .tick _ => True
  | _ => False

theorem after_debuggers (call : Call) (stay : ¬ call.MovesDebuggers) : (c.after call).debuggers = c.debuggers := by
  have slot {α : Type} (id : Nat) (f : Fin slotCount → Answer α) (inside : ∀ i, (f i).2.debuggers = c.debuggers) :
      (c.withSlot id f).2.debuggers = c.debuggers :=
    c.with_slot_keeps (·.debuggers = c.debuggers) id f rfl fun i _ => inside i
  cases call with
  | compile _ | delete _ | load _ | command _ _ | pauseAll | addBreakpoint _ _ | removeBreakpoint _ _
  | clearBreakpoints _ | tick _ => exact absurd trivial stay
  | upload id source =>
    exact slot id _ fun i => rfl
  | enable id _ | rename id _ | reset id => exact slot id _ fun i => rfl
  | bind id name target => exact c.bind_keeps (·.debuggers = c.debuggers) id name target rfl fun i _ _ => rfl
  | unbind id name => exact slot id _ fun i => rfl
  | setInterval ms =>
    simp only [after, setInterval]
    cases Interval.ofMilliseconds ms <;> rfl
  | controlWrite id word =>
    simp only [after, controlWrite]
    split <;> rfl
  | resetAll | compactExports | compactSources | setRunning _ | setDebug _ | allow _ | wait _ => rfl

-- Wherever a breakpoint stands behind a call that leaves the bytecode, one has stood there before, or
-- it is a new one at an instruction.
theorem after_stands (call : Call) (stays : ¬ call.MovesBytecode) (j : Fin slotCount) (pc : Nat)
    (stands : (c.after call).StandsAt j pc) :
    c.StandsAt j pc ∨ ∃ b, (c.programs.get j).bytecode = some b ∧ pc < b.code.length := by
  by_cases moves : call.MovesDebuggers
  · cases call with
    | compile _ | delete _ | load _ => exact absurd trivial stays
    | addBreakpoint id new => exact c.add_breakpoint_stands id new j pc stands
    | command id cmd =>
      exact .inl (c.stands_on_debugger id _ (fun d _ old => d.apply_slots cmd ▸ old) j pc stands)
    | removeBreakpoint id old =>
      exact .inl (c.stands_on_debugger id _ (fun d at' => Debugger.clear_slot_old old d.slots at') j pc stands)
    | clearBreakpoints id =>
      exact .inl (c.stands_on_debugger id _ (fun d at' new => absurd new (d.cleared_slots at')) j pc stands)
    | pauseAll =>
      rw [StandsAt, after, pauseAll, Slots.get_map, Debugger.apply_slots] at stands
      exact .inl stands
    | tick r => exact .inl (c.tick_stands r j pc stands)
    | _ => exact moves.elim
  · rw [StandsAt, c.after_debuggers call moves] at stands
    exact .inl stands

theorem after_addressed (call : Call) (other : ∀ id, call ≠ .compile id) (addressed : c.Addressed) :
    (c.after call).Addressed := by
  intro i pc stands
  by_cases moves : call.MovesBytecode
  · have kept : c.StandsAt i pc ∧ (c.after call).programs.get i = c.programs.get i := by
      cases call with
      | compile id => exact absurd rfl (other id)
      | delete id => exact c.delete_stands id i pc stands
      | load blob => exact c.load_stands blob i pc stands
      | _ => exact moves.elim
    rw [kept.2]
    exact addressed i pc kept.1
  · rw [c.after_bytecode call moves i]
    obtain before | new := c.after_stands call moves i pc stands
    · exact addressed i pc before
    · exact new

theorem compile_made (i : Fin slotCount) :
    ∃ d p, (c.compile i).2.debuggers = c.debuggers.put i d ∧ d.slots = (c.debuggers.get i).slots ∧
      (c.compile i).2.programs = c.programs.put i p ∧ ∀ b, p.bytecode = some b ↔ c.compileSource i = .ok b := by
  simp only [compile, withSlot, check_id_fin]
  cases result : c.compileSource i with
  | ok made =>
    obtain ⟨exports, p, installed, _, compiled, _⟩ := (c.vacated i).install_made i made
    refine ⟨_, _, congrArg debuggers installed, rfl, congrArg programs installed, fun b => ?_⟩
    simp only [compiled, Option.some.injEq, Except.ok.injEq]
  | error f =>
    have refused (b : Bytecode) : (none : Option Bytecode) = some b ↔ Except.error f = .ok b := by
      simp only [reduceCtorEq]
    exact ⟨_, _, rfl, rfl, rfl, refused⟩

theorem compile_addressed_iff (id : Nat) (addressed : c.Addressed) :
    (c.compile id).2.Addressed ↔ c.NextCovers id := by
  cases valid : checkId id with
  | error f =>
    have same : (c.compile id).2 = c := by simp only [compile, withSlot, valid]
    rw [same]
    refine ⟨fun _ i here => ?_, fun _ => addressed⟩
    subst here
    cases (check_id_fin i).symm.trans valid
  | ok i =>
    obtain rfl := check_id_val id i valid
    obtain ⟨d, p, debuggers, slots, programs, bytecode⟩ := c.compile_made i
    constructor
    · intro behind j here pc stands
      obtain rfl := Fin.ext here
      have still : (c.compile j).2.StandsAt j pc := by
        rw [StandsAt, debuggers, Slots.get_put_self, slots]
        exact stands
      obtain ⟨b, compiled, inside⟩ := behind j pc still
      rw [programs, Slots.get_put_self] at compiled
      exact ⟨b, (bytecode b).mp compiled, inside⟩
    · intro covers j pc stands
      by_cases here : i = j
      · subst here
        rw [StandsAt, debuggers, Slots.get_put_self, slots] at stands
        obtain ⟨b, compiled, inside⟩ := covers i rfl pc stands
        rw [programs, Slots.get_put_self]
        exact ⟨b, (bytecode b).mpr compiled, inside⟩
      · rw [StandsAt, debuggers, Slots.get_put_other _ i j d here] at stands
        rw [programs, Slots.get_put_other _ i j p here]
        exact addressed j pc stands

end

def afterAll (c : Controller) (history : List Call) : Controller := history.foldl after c

theorem after_all_snoc (c : Controller) (history : List Call) (call : Call) :
    c.afterAll (history ++ [call]) = (c.afterAll history).after call := by
  rw [afterAll, List.foldl_append]
  rfl

theorem reachable_iff_history (c : Controller) :
    Reachable c ↔ ∃ settings clock history, c = afterAll { settings, clock } history := by
  constructor
  · intro reachable
    induction reachable with
    | initial settings clock => exact ⟨settings, clock, [], rfl⟩
    | after c call _ ih =>
      obtain ⟨settings, clock, history, rfl⟩ := ih
      exact ⟨settings, clock, history ++ [call], (after_all_snoc _ history call).symm⟩
  · intro ⟨settings, clock, history, came⟩
    subst came
    induction history using List.reverseRecOn with
    | nil => exact .initial settings clock
    | append_singleton history call ih =>
      rw [after_all_snoc]
      exact .after _ call ih

-- In all states of a history breakpoints have instructions under them if and only if every compile in it
-- makes a program that has some at the breakpoints of the slot. Where there are none any text will do.
theorem breakpoints_addressed_iff (settings : Settings) (clock : Clock) (history : List Call) :
    (∀ before, before <+: history → (afterAll { settings, clock } before).Addressed) ↔
      ∀ before id, before ++ [.compile id] <+: history → (afterAll { settings, clock } before).NextCovers id := by
  induction history using List.reverseRecOn with
  | nil =>
    constructor
    · intro _ before id first
      cases List.append_eq_nil_iff.mp (List.prefix_nil.mp first) |>.2
    · intro _ before first
      obtain rfl := List.prefix_nil.mp first
      exact addressed_initial settings clock
  | append_singleton history call ih =>
    constructor
    · intro addressed before id first
      have earlier (other : List Call) (first : other <+: history) :=
        addressed other (first.trans (List.prefix_append history [call]))
      obtain whole | shorter := List.prefix_concat_iff.mp first
      · obtain ⟨rfl, same⟩ := List.append_inj' whole rfl
        have behind := addressed _ first
        rw [after_all_snoc] at behind
        exact (compile_addressed_iff _ id (earlier before (List.prefix_refl before))).mp behind
      · exact ih.mp earlier before id shorter
    · intro covers before first
      have earlier := ih.mpr fun other id first => covers other id (first.trans (List.prefix_append history [call]))
      obtain rfl | shorter := List.prefix_concat_iff.mp first
      · have addressed := earlier history (List.prefix_refl history)
        rw [after_all_snoc]
        by_cases compiles : ∃ id, call = .compile id
        · obtain ⟨id, rfl⟩ := compiles
          exact (compile_addressed_iff _ id addressed).mpr (covers history id (List.prefix_refl _))
        · exact after_addressed _ call (fun id same => compiles ⟨id, same⟩) addressed
      · exact earlier before shorter

def threeLong : Bytes := "VAR a : INT; END_VAR a := 1;".toUTF8.toList

def oneLong : Bytes := "VAR a : INT; END_VAR".toUTF8.toList

def broken : Bytes := "VAR a : INT; END_VAR a := ;".toUTF8.toList

def recompiled (text : Bytes) : List Call :=
  [.upload 0 threeLong, .compile 0, .addBreakpoint 0 2, .upload 0 text, .compile 0]

theorem recompiled_breakpoint_stands (text : Bytes) (length : Option Nat)
    (made : ((afterAll {} (recompiled text)).programs.get firstSlot).bytecode.map (·.code.length) = length)
    (stands : some 2 ∈ ((afterAll {} (recompiled text)).debuggers.get firstSlot).slots)
    (short : ∀ n, length = some n → n ≤ 2) : ¬ (afterAll {} (recompiled text)).Addressed := by
  intro addressed
  obtain ⟨b, compiled, inside⟩ := addressed firstSlot 2 stands
  rw [compiled] at made
  have within := short b.code.length made.symm
  omega

-- The breakpoint stays, behind the end of a shorter program as well as where there is none at all.
theorem recompiled_breakpoint_is_stale :
    let shorter := afterAll {} (recompiled oneLong)
    let failed := afterAll {} (recompiled broken)
    (Reachable shorter ∧ ¬ shorter.Addressed) ∧ Reachable failed ∧ ¬ failed.Addressed := by
  intro shorter failed
  refine ⟨⟨(reachable_iff_history _).mpr ⟨{}, {}, _, rfl⟩, ?_⟩, (reachable_iff_history _).mpr ⟨{}, {}, _, rfl⟩, ?_⟩
  · exact recompiled_breakpoint_stands oneLong (some 1) (by decide +kernel) (by decide +kernel) (by simp)
  · exact recompiled_breakpoint_stands broken none (by decide +kernel) (by decide +kernel) nofun

end Controller

end SoftPlc
