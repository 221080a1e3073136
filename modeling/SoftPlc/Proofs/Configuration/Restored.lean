import SoftPlc.Proofs.Configuration.Accepted
import SoftPlc.Proofs.Controller.Calls

set_option autoImplicit false

namespace SoftPlc

namespace Configuration

def stored (source : Bytes) : Option Bytes := if source = [] then none else some source

theorem records_fin (records : List Record) (length : records.length = slotCount) :
    ∃ record : Fin slotCount → Record, records = (List.finRange slotCount).map record := by
  refine ⟨fun i => records.get (i.cast length.symm), ?_⟩
  apply List.ext_getElem
  · simp [length]
  · intro i inside other
    simp

section
variable (record : Fin slotCount → Record)

theorem numbered_fin :
    numbered ((List.finRange slotCount).map record) = (List.finRange slotCount).map fun i => (i.val, record i) := by
  apply List.ext_getElem
  · simp [numbered]
  · intro i inside other
    simp [numbered]

theorem record_at (i : Fin slotCount) : ((List.finRange slotCount).map record)[i.val]? = some (record i) := by
  simp

end

theorem arena_of_ok (record : Fin slotCount → Record) (slots : List (Fin slotCount)) (a a' : SourceArena)
    (sound : a.Sound) (distinct : slots.Nodup)
    (made : arenaOf a (slots.map fun i => (i.val, record i)) = .ok a') :
    a'.Sound ∧ ∀ i : Fin slotCount, a'.source? i = if i ∈ slots then stored (record i).source else a.source? i := by
  induction slots generalizing a with
  | nil =>
    cases made
    exact ⟨sound, fun i => by rw [if_neg List.not_mem_nil]⟩
  | cons id rest ih =>
    obtain ⟨fresh, others⟩ := List.nodup_cons.mp distinct
    simp only [List.map_cons, arenaOf] at made
    obtain ⟨next, uploaded⟩ | ⟨f, refused⟩ := a.upload_either id (record id).source
    · simp only [uploaded] at made
      obtain ⟨keeps, sources⟩ := a.upload_ok next id _ sound uploaded
      obtain ⟨last, texts⟩ := ih next keeps others made
      refine ⟨last, fun i => ?_⟩
      rw [texts i, sources i]
      by_cases here : i = id
      · subst here
        rw [if_neg fresh, if_pos rfl, if_pos List.mem_cons_self]
        rfl
      · have other : i.val ≠ id.val := fun equal => here (Fin.ext equal)
        rw [if_neg other]
        by_cases later : i ∈ rest
        · rw [if_pos later, if_pos (List.mem_cons_of_mem id later)]
        · rw [if_neg later, if_neg (by simp [here, later])]
    · simp [refused] at made

theorem arena_of_accepts (record : Fin slotCount → Record) (slots : List (Fin slotCount)) (a : SourceArena)
    (sound : a.Sound) (room : a.used + (slots.map fun i => (record i).source.length).sum ≤ SourceArena.capacity) :
    ∃ a', arenaOf a (slots.map fun i => (i.val, record i)) = .ok a' := by
  induction slots generalizing a with
  | nil => exact ⟨a, rfl⟩
  | cons id rest ih =>
    simp only [List.map_cons, List.sum_cons] at room
    have less := a.held_by_others_le sound id
    obtain ⟨next, uploaded⟩ := a.upload_accepts id (record id).source sound id.isLt (by omega)
    have used := a.upload_used next id _ sound uploaded
    obtain ⟨a', made⟩ := ih next (a.upload_ok next id _ sound uploaded).1 (by omega)
    exact ⟨a', by simp only [List.map_cons, arenaOf, uploaded, made]⟩

def Restores (p : LogicProgram) (r : Record) : Prop :=
  p.name = r.name ∧ p.enabled = r.enabled ∧ p.bytecode = r.compiled.map (·.1) ∧
    p.values = (r.compiled.map (·.2)).getD []

theorem program_of_restores (id : Nat) (r : Record) : Restores (programOf id r) r := by
  unfold programOf
  cases compiled : r.compiled with
  | none => exact ⟨rfl, rfl, by rw [compiled]; rfl, by rw [compiled]; rfl⟩
  | some both => exact ⟨rfl, rfl, by rw [compiled]; rfl, by rw [compiled]; rfl⟩

def Contents.program (k : Contents) (id : Nat) : LogicProgram :=
  match k.records[id]? with
  | some r => programOf id r
  | none => .fresh id

theorem Contents.program_unbound (k : Contents) (id : Nat) : (k.program id).bindingCount = 0 := by
  unfold program programOf
  split
  · split <;> rfl
  · rfl

theorem note_failures_program (failures : List (Nat × Fault)) (programs : Slots LogicProgram) (i : Fin slotCount) :
    ∃ lastError, (failures.foldl noteFailure programs).get i = { programs.get i with lastError } := by
  induction failures generalizing programs with
  | nil => exact ⟨_, rfl⟩
  | cons failure rest ih =>
    obtain ⟨lastError, noted⟩ := ih (noteFailure programs failure)
    refine ⟨lastError, noted.trans ?_⟩
    rw [noteFailure, Slots.get_map_idx]
    split <;> rfl

end Configuration

namespace Controller

open SoftPlc.Configuration

theorem take_over_program (c : Controller) (k : Contents) (sources : SourceArena) (i : Fin slotCount) :
    ∃ lastError, (c.takeOver k sources).programs.get i = { k.program i with lastError } := by
  obtain ⟨lastError, noted⟩ := note_failures_program _ _ i
  refine ⟨lastError, noted.trans ?_⟩
  rw [Slots.get_of_fn]
  rfl

theorem take_over_programs (c : Controller) (k : Contents) (sources : SourceArena) (record : Fin slotCount → Record)
    (records : k.records = (List.finRange slotCount).map record) (i : Fin slotCount) :
    Restores ((c.takeOver k sources).programs.get i) (record i) := by
  obtain ⟨_, taken⟩ := c.take_over_program k sources i
  have recorded : k.program i = programOf i (record i) := by rw [Contents.program, records, record_at]
  rw [taken, recorded]
  exact program_of_restores i (record i)

theorem take_over_debugger (c : Controller) (k : Contents) (sources : SourceArena) (i : Fin slotCount) :
    (c.takeOver k sources).debuggers.get i = ((c.debuggers.get i).apply .stop).clearBreakpoints := by
  simp [takeOver]

theorem take_over_suspended (c : Controller) (k : Contents) (sources : SourceArena) (i : Fin slotCount) :
    ((c.takeOver k sources).debuggers.get i).suspended = none := by
  rw [take_over_debugger]
  rfl

theorem load_ok (c restored : Controller) (blob : Bytes) (loaded : c.load blob = (.ok (), restored)) :
    ∃ k sources, read blob = .ok k ∧ arenaOf {} (Configuration.numbered k.records) = .ok sources ∧
      restored = c.takeOver k sources := by
  unfold load at loaded
  cases accepted : read blob with
  | error f => simp [accepted] at loaded
  | ok k =>
    cases made : arenaOf {} (Configuration.numbered k.records) with
    | error f => simp [accepted, made] at loaded
    | ok sources =>
      simp only [accepted, made, Prod.mk.injEq, true_and] at loaded
      exact ⟨k, sources, rfl, made, loaded.symm⟩

theorem load_error (c refused : Controller) (blob : Bytes) (f : Fault) (answer : c.load blob = (.error f, refused)) :
    refused = c := by
  unfold load at answer
  split at answer
  · cases answer
    rfl
  · split at answer
    · cases answer
      rfl
    · cases answer

theorem load_keeps (P : Controller → Prop) (c : Controller) (blob : Bytes) (unchanged : P c)
    (taken : ∀ k sources, P (c.takeOver k sources)) : P (c.load blob).2 := by
  cases answer : c.load blob with
  | mk result next =>
    cases result with
    | error f => exact c.load_error next blob f answer ▸ unchanged
    | ok _ =>
      obtain ⟨k, sources, _, _, rfl⟩ := c.load_ok next blob answer
      exact taken k sources

theorem loaded_sound (c restored : Controller) (blob : Bytes) (loaded : c.load blob = (.ok (), restored)) :
    restored.Sound := by
  obtain ⟨k, sources, accepted, made, rfl⟩ := c.load_ok restored blob loaded
  obtain ⟨length, each⟩ := read_sound blob k accepted
  obtain ⟨record, records⟩ := records_fin k.records length
  rw [records, numbered_fin] at made
  refine ⟨(arena_of_ok record _ {} sources SourceArena.sound_empty (List.nodup_finRange _) made).1, fun i => ?_⟩
  obtain ⟨_, _, bytecode, values⟩ := c.take_over_programs k sources record records i
  have alone := c.take_over_suspended k sources i
  have holds := each (record i) (records ▸ List.mem_map_of_mem (List.mem_finRange i))
  cases compiled : (record i).compiled with
  | none =>
    rw [compiled] at bytecode values
    exact slot_sound_empty _ i _ _ bytecode values alone
  | some both =>
    rw [compiled] at bytecode values
    obtain ⟨program, fits, _⟩ := holds.compiled both.1 both.2 compiled
    have only (b : Bytecode) (found : ((c.takeOver k sources).programs.get i).bytecode = some b) : b = both.1 :=
      Option.some.inj (found.symm.trans bytecode)
    refine ⟨?_, ?_, ?_, ?_, ?_⟩
    · intro uncompiled
      cases uncompiled.symm.trans bytecode
    · intro b found
      exact only b found ▸ program
    · intro b found
      rw [only b found, values]
      exact fits
    · intro b frame _ suspended
      cases alone.symm.trans suspended
    · intro b _ e member
      cases member

theorem load_sound (c : Controller) (blob : Bytes) (sound : c.Sound) : (c.load blob).2.Sound := by
  cases answer : c.load blob with
  | mk result restored =>
    cases result with
    | ok _ => exact c.loaded_sound restored blob answer
    | error f => exact c.load_error restored blob f answer ▸ sound

end Controller

end SoftPlc
