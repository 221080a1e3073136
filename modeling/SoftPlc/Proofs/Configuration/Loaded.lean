import SoftPlc.Proofs.Configuration.Inside
import SoftPlc.Proofs.Configuration.Restored
import SoftPlc.Proofs.Store.Compaction

set_option autoImplicit false

namespace SoftPlc.Controller

open SoftPlc.Configuration

structure TakenOver (c : Controller) : Prop where
  code : ∀ i b, (c.programs.get i).bytecode = some b → 1 ≤ b.code.length ∧ b.code.length ≤ 1024
  vars : ∀ i b, (c.programs.get i).bytecode = some b →
    b.vars.length ≤ 32 ∧ ∀ v ∈ b.vars, v.initial.dataType = v.dataType
  values : ∀ i b, (c.programs.get i).bytecode = some b →
    (c.programs.get i).values.map (·.dataType) = b.vars.map (·.dataType)
  texts : ∀ i r, c.sources.region? i = some r → r.offset + r.size ≤ 8000
  textsApart : ∀ i j r s, i ≠ j → c.sources.region? i = some r → c.sources.region? j = some s →
    r.offset + r.size ≤ s.offset ∨ s.offset + s.size ≤ r.offset
  exports : ∀ i a, c.exports.allocation? i = some a → a.offset.toNat + a.size.toNat ≤ 32
  exportsApart : ∀ i j a b, i ≠ j → c.exports.allocation? i = some a → c.exports.allocation? j = some b →
    a.offset.toNat + a.size.toNat ≤ b.offset.toNat ∨ b.offset.toNat + b.size.toNat ≤ a.offset.toNat
  unbound : c.bindings = []
  debuggers : ∀ i, (c.debuggers.get i).mode = .off ∧ (c.debuggers.get i).breakpoints = [] ∧
    (c.debuggers.get i).suspended = none

variable (c : Controller)

theorem cleared_breakpoints (d : Debugger) : d.clearBreakpoints.breakpoints = [] := rfl

theorem loaded_taken_over (restored : Controller) (blob : Bytes) (loaded : c.load blob = (.ok (), restored)) :
    restored.TakenOver := by
  obtain ⟨sources, slots⟩ := c.loaded_sound restored blob loaded
  obtain ⟨k, arena, accepted, made, rfl⟩ := c.load_ok restored blob loaded
  have exports : (c.takeOver k arena).exports.Sound := ExportPool.lay_out_sound _
  have program (i : Fin slotCount) (b : Bytecode)
      (compiled : ((c.takeOver k arena).programs.get i).bytecode = some b) : b.Sound := (slots i).sound b compiled
  refine ⟨?_, ?_, fun i => (slots i).values, fun i r found => (sources.inside i r found).2, sources.apart,
    fun i a found => (exports.inside i a found).2, exports.apart, rfl, fun i => ?_⟩
  · intro i b compiled
    exact ⟨List.length_pos_iff.mpr (program i b compiled).nonempty, (program i b compiled).room⟩
  · intro i b compiled
    exact ⟨(program i b compiled).few, (program i b compiled).typed⟩
  · rw [c.take_over_debugger k arena i]
    exact ⟨rfl, cleared_breakpoints _, rfl⟩

theorem texts_fit_iff (record : Fin slotCount → Record) :
    (∃ sources, arenaOf {} ((List.finRange slotCount).map fun i => (i.val, record i)) = .ok sources) ↔
      ((List.finRange slotCount).map fun i => (record i).source.length).sum ≤ 8000 := by
  constructor
  · rintro ⟨sources, made⟩
    obtain ⟨sound, texts⟩ := arena_of_ok record _ {} sources SourceArena.sound_empty (List.nodup_finRange _) made
    have held (i : Fin slotCount) : sources.held i = (record i).source.length := by
      rw [SourceArena.held, texts i, if_pos (List.mem_finRange i), stored]
      by_cases empty : (record i).source = []
      · rw [if_pos empty, empty]
        rfl
      · rw [if_neg empty]
        rfl
    calc ((List.finRange slotCount).map fun i => (record i).source.length).sum
        = ∑ i : Fin slotCount, sources.held i := by
          rw [← List.ofFn_eq_map, List.sum_ofFn]
          exact Finset.sum_congr rfl fun i _ => (held i).symm
      _ = sources.used := (sources.used_total sound).symm
      _ ≤ 8000 := sources.used_within sound
  · intro room
    have unused : SourceArena.used {} = 0 := by decide
    exact arena_of_accepts record _ {} SourceArena.sound_empty (by rwa [unused, Nat.zero_add])

theorem load_accepts_iff (blob : Bytes) :
    (∃ restored, c.load blob = (.ok (), restored)) ↔
      ∃ k, read blob = .ok k ∧ (k.records.map (·.source.length)).sum ≤ 8000 := by
  have fits (k : Contents) (accepted : read blob = .ok k) :
      (∃ sources, arenaOf {} (Configuration.numbered k.records) = .ok sources) ↔
        (k.records.map (·.source.length)).sum ≤ 8000 := by
    obtain ⟨record, records⟩ := records_fin k.records (read_sound blob k accepted).1
    rw [records, numbered_fin, List.map_map]
    exact texts_fit_iff record
  constructor
  · rintro ⟨restored, loaded⟩
    obtain ⟨k, sources, accepted, made, _⟩ := c.load_ok restored blob loaded
    exact ⟨k, accepted, (fits k accepted).mp ⟨sources, made⟩⟩
  · rintro ⟨k, accepted, room⟩
    obtain ⟨sources, made⟩ := (fits k accepted).mpr room
    exact ⟨c.takeOver k sources, by simp only [load, accepted, made]⟩

theorem short_blob_refused (blob : Bytes) (short : blob.length < 13) :
    c.load blob = (.error (corrupt "BAD MAGIC"), c) := by
  simp only [load, Configuration.read, short, true_or, if_true]

theorem header_present (blob : Bytes) (long : 13 ≤ blob.length) :
    (∃ found rest, word ((blob.take (blob.length - 4)).drop 4) = .ok (found, rest)) ∧
      (blob.drop (blob.length - 4)).length = 4 := by
  refine ⟨?_, by rw [List.length_drop]; omega⟩
  have enough : 2 ≤ ((blob.take (blob.length - 4)).drop 4).length := by
    rw [List.length_drop, List.length_take]
    omega
  match (blob.take (blob.length - 4)).drop 4, enough with
  | a :: b :: rest, _ => exact ⟨ofLittleEndian16 a b, rest, rfl⟩

-- Whatever the bytes are, the controller stays as it is or takes them over as a whole, and which of
-- the two is decided by the bytes alone. Bytes that are missing are never read: too short a blob is
-- refused for its mark, the fields of any other by the first that does not have its bytes.
theorem load_all_or_nothing (c : Controller) (blob : Bytes) :
    ((∃ f, c.load blob = (.error f, c)) ∨ ∃ restored, c.load blob = (.ok (), restored) ∧ restored.TakenOver) ∧
      ((∃ restored, c.load blob = (.ok (), restored)) ↔
        ∃ k, read blob = .ok k ∧ (k.records.map (·.source.length)).sum ≤ 8000) ∧
      (blob.length < 13 → c.load blob = (.error (corrupt "BAD MAGIC"), c)) ∧
      (13 ≤ blob.length → (∃ found rest, word ((blob.take (blob.length - 4)).drop 4) = .ok (found, rest)) ∧
        (blob.drop (blob.length - 4)).length = 4) ∧
      StaysInside contents := by
  refine ⟨?_, c.load_accepts_iff blob, c.short_blob_refused blob, header_present blob, contents_stays_inside⟩
  cases answer : c.load blob with
  | mk result next =>
    cases result with
    | error f =>
      obtain rfl := c.load_error next blob f answer
      exact .inl ⟨f, rfl⟩
    | ok _ => exact .inr ⟨next, rfl, c.loaded_taken_over next blob answer⟩

end SoftPlc.Controller
