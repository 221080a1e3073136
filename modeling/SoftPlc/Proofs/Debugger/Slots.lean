import Mathlib.Data.Finset.Card
import Mathlib.Data.List.ReduceOption
import SoftPlc.Proofs.Debugger.Breakpoints

set_option autoImplicit false

namespace SoftPlc.Debugger

section
variable (pc : Nat) (slots : List (Option Nat))

theorem fill_slot_shape (filled : List (Option Nat)) (found : fillSlot pc slots = some filled) :
    ∃ front back, slots = front ++ none :: back ∧ filled = front ++ some pc :: back := by
  induction slots generalizing filled with
  | nil => cases found
  | cons slot rest ih =>
    cases slot with
    | none =>
      cases found
      exact ⟨[], rest, rfl, rfl⟩
    | some taken =>
      obtain ⟨others, room, rfl⟩ := Option.map_eq_some_iff.mp found
      obtain ⟨front, back, rfl, rfl⟩ := ih others room
      exact ⟨some taken :: front, back, rfl, rfl⟩

theorem fill_slot_free : (fillSlot pc slots).isSome = true ↔ none ∈ slots := by
  induction slots with
  | nil => simp [fillSlot]
  | cons slot rest ih => cases slot <;> simp [fillSlot, ih]

theorem clear_slot_shape : (some pc ∉ slots ∧ clearSlot pc slots = slots) ∨
    ∃ front back, slots = front ++ some pc :: back ∧ clearSlot pc slots = front ++ none :: back := by
  induction slots with
  | nil => exact .inl ⟨List.not_mem_nil, rfl⟩
  | cons slot rest ih =>
    by_cases here : slot = some pc
    · subst here
      exact .inr ⟨[], rest, rfl, if_pos rfl⟩
    · rw [clearSlot, if_neg here]
      rcases ih with ⟨absent, same⟩ | ⟨front, back, before, after⟩
      · refine .inl ⟨?_, congrArg _ same⟩
        simpa [Ne.symm here] using absent
      · exact .inr ⟨slot :: front, back, congrArg _ before, congrArg _ after⟩

theorem clear_slot_old (at' : Nat) (stands : some at' ∈ clearSlot pc slots) : some at' ∈ slots := by
  rcases clear_slot_shape pc slots with ⟨_, same⟩ | ⟨front, back, before, after⟩
  · exact same ▸ stands
  · rw [after] at stands
    rw [before]
    simp only [List.mem_append, List.mem_cons, reduceCtorEq, false_or] at stands ⊢
    exact stands.imp_right .inr

theorem fill_slot_new (at' : Nat) (filled : List (Option Nat)) (found : fillSlot pc slots = some filled)
    (stands : some at' ∈ filled) : some at' ∈ slots ∨ at' = pc := by
  obtain ⟨front, back, rfl, rfl⟩ := fill_slot_shape pc slots filled found
  simp only [List.mem_append, List.mem_cons, Option.some.injEq, reduceCtorEq, false_or] at stands ⊢
  tauto

end

structure Mark (slots : List (Option Nat)) (s : Finset Nat) : Prop where
  length : slots.length = maxBreakpoints
  distinct : slots.reduceOption.Nodup
  members : slots.reduceOption.toFinset = s

section
variable (pc : Nat) (slots : List (Option Nat)) (s : Finset Nat)

theorem mark_nothing : Mark (List.replicate maxBreakpoints none) ∅ := by
  refine ⟨List.length_replicate, ?_, ?_⟩
  · simp
  · simp

variable (marks : Mark slots s)
include marks

theorem mark_mem : some pc ∈ slots ↔ pc ∈ s := by
  rw [← List.reduceOption_mem_iff, ← marks.members, List.mem_toFinset]

theorem mark_card : slots.reduceOption.length = s.card := by
  rw [← marks.members, List.toFinset_card_of_nodup marks.distinct]

theorem mark_room : none ∈ slots ↔ s.card < maxBreakpoints := by
  rw [← mark_card slots s marks, ← marks.length, List.reduceOption_length_lt_iff]

theorem mark_fill (filled : List (Option Nat)) (fresh : pc ∉ s) (found : fillSlot pc slots = some filled) :
    Mark filled (insert pc s) := by
  obtain ⟨front, back, rfl, rfl⟩ := fill_slot_shape pc slots filled found
  have here : pc ∉ (front ++ none :: back).reduceOption := by
    rwa [← List.mem_toFinset, marks.members]
  have moved : (front ++ some pc :: back).reduceOption.Perm (pc :: (front ++ none :: back).reduceOption) := by
    simp [List.reduceOption_append]
  refine ⟨?_, moved.nodup_iff.mpr (List.nodup_cons.mpr ⟨here, marks.distinct⟩), ?_⟩
  · simpa using marks.length
  · rw [List.toFinset_eq_of_perm _ _ moved, List.toFinset_cons, marks.members]

theorem mark_clear : Mark (clearSlot pc slots) (s.erase pc) := by
  rcases clear_slot_shape pc slots with ⟨absent, same⟩ | ⟨front, back, rfl, after⟩
  · have outside : pc ∉ s := mt (mark_mem pc slots s marks).mpr absent
    rw [same, Finset.erase_eq_of_notMem outside]
    exact marks
  · have moved : (front ++ some pc :: back).reduceOption.Perm (pc :: (front ++ none :: back).reduceOption) := by
      simp [List.reduceOption_append]
    obtain ⟨outside, distinct⟩ := List.nodup_cons.mp (moved.nodup_iff.mp marks.distinct)
    rw [after]
    refine ⟨?_, distinct, ?_⟩
    · simpa using marks.length
    · rw [← marks.members, List.toFinset_eq_of_perm _ _ moved, List.toFinset_cons, Finset.erase_insert]
      rwa [List.mem_toFinset]

end

section
variable (d : Debugger)

theorem apply_slots (cmd : Command) : (d.apply cmd).slots = d.slots := by
  cases cmd <;> rfl

theorem cleared_slots (pc : Nat) : some pc ∉ d.clearBreakpoints.slots := by
  intro stands
  cases List.eq_of_mem_replicate stands

theorem add_breakpoint_refused (pc : Nat) (refused : (d.addBreakpoint pc).1 = false) : (d.addBreakpoint pc).2 = d := by
  unfold addBreakpoint at refused ⊢
  by_cases before : d.hasBreakpoint pc
  · rw [if_pos before]
  · rw [if_neg before] at refused ⊢
    cases filled : fillSlot pc d.slots with
    | some slots =>
      rw [filled] at refused
      cases refused
    | none => rfl

theorem add_breakpoint_new (pc at' : Nat) (stands : some at' ∈ (d.addBreakpoint pc).2.slots) :
    some at' ∈ d.slots ∨ at' = pc := by
  unfold addBreakpoint at stands
  by_cases before : d.hasBreakpoint pc
  · rw [if_pos before] at stands
    exact .inl stands
  · rw [if_neg before] at stands
    cases filled : fillSlot pc d.slots with
    | some slots =>
      rw [filled] at stands
      exact fill_slot_new pc d.slots at' slots filled stands
    | none =>
      rw [filled] at stands
      exact .inl stands

theorem after_step_slots (m : Machine) : (d.afterStep m).1.slots = d.slots := by
  unfold afterStep
  by_cases halted : m.halted
  · simp only [if_pos halted]
    split <;> rfl
  · simp only [if_neg halted]
    cases m.fault with
    | some f => rfl
    | none =>
      simp only
      split <;> rfl

theorem watch_slots (b : Bytecode) (maxSteps : UInt32) (left : Nat) (m : Machine) :
    (watch b maxSteps left d m).1.slots = d.slots := by
  have watches := watch_watches b maxSteps left d m
  generalize watch b maxSteps left d m = result at watches ⊢
  induction watches with
  | stopped | exhausted => rfl
  | ended left d after m outcome _ answer =>
    have kept := after_step_slots { d with passing := none } (m.step b)
    rwa [answer] at kept
  | goesOn left d after m result _ answer _ ih =>
    have kept := after_step_slots { d with passing := none } (m.step b)
    rw [answer] at kept
    exact ih.trans kept

theorem run_slots (b : Bytecode) (maxSteps : UInt32) (m : Machine) : (d.run b maxSteps m).1.slots = d.slots := by
  by_cases off : d.mode = .off
  · rw [Debugger.run, if_pos off]
    simp only
    split <;> rfl
  · rw [Debugger.run, if_neg off]
    exact d.watch_slots b maxSteps _ m

end

end SoftPlc.Debugger
