import SoftPlc.Proofs.Store.Slots
import SoftPlc.Store.SourceArena

set_option autoImplicit false

namespace SoftPlc.SourceArena

theorem slice_get (buffer : Bytes) (r : Region) (k : Nat) :
    (slice buffer r)[k]? = if k < r.size then buffer[r.offset + k]? else none := by
  rw [slice, List.getElem?_take]
  split
  · rw [List.getElem?_drop]
  · rfl

theorem slice_length (buffer : Bytes) (r : Region) (inside : r.stop ≤ buffer.length) :
    (slice buffer r).length = r.size := by
  unfold Region.stop at inside
  rw [slice, List.length_take, List.length_drop]
  omega

theorem overwrite_length (buffer bytes : Bytes) (offset : Nat) (inside : offset + bytes.length ≤ buffer.length) :
    (overwrite buffer offset bytes).length = buffer.length := by
  simp only [overwrite, List.length_append, List.length_take, List.length_drop]
  omega

theorem overwrite_outside (buffer bytes : Bytes) (offset k : Nat) (inside : offset + bytes.length ≤ buffer.length)
    (outside : k < offset ∨ offset + bytes.length ≤ k) : (overwrite buffer offset bytes)[k]? = buffer[k]? := by
  have front : (buffer.take offset).length = offset := by
    rw [List.length_take]
    omega
  rcases outside with before | behind
  · rw [overwrite, List.append_assoc, List.getElem?_append_left (by omega), List.getElem?_take, if_pos before]
  · rw [overwrite, List.getElem?_append_right (by rw [List.length_append]; omega), List.getElem?_drop,
      List.length_append, front]
    congr 1
    omega

theorem slice_overwritten (buffer bytes : Bytes) (offset : Nat) (inside : offset + bytes.length ≤ buffer.length) :
    slice (overwrite buffer offset bytes) ⟨offset, bytes.length⟩ = bytes := by
  have front : (buffer.take offset).length = offset := by
    rw [List.length_take]
    omega
  rw [slice, overwrite, List.append_assoc, List.drop_left' front, List.take_left]

theorem slice_apart (buffer bytes : Bytes) (offset : Nat) (r : Region)
    (inside : offset + bytes.length ≤ buffer.length) (apart : r.stop ≤ offset ∨ offset + bytes.length ≤ r.offset) :
    slice (overwrite buffer offset bytes) r = slice buffer r := by
  unfold Region.stop at apart
  apply List.ext_getElem?
  intro k
  rw [slice_get, slice_get]
  split
  · exact overwrite_outside buffer bytes offset _ inside (by omega)
  · rfl

-- What holds of every arena: each region is in the buffer and no two of them meet.
structure Sound (a : SourceArena) : Prop where
  length : a.buffer.length = capacity
  inside : ∀ i r, a.region? i = some r → 0 < r.size ∧ r.stop ≤ capacity
  apart : ∀ i j r s, i ≠ j → a.region? i = some r → a.region? j = some s → r.stop ≤ s.offset ∨ s.stop ≤ r.offset

theorem region_empty (i : Nat) : SourceArena.region? {} i = none := by
  simp only [region?, Slots.find?, Vector.getElem?_replicate]
  split <;> rfl

theorem sound_empty : Sound {} := by
  refine ⟨List.length_replicate, ?_, ?_⟩
  · intro i r found
    cases (region_empty i).symm.trans found
  · intro i j r s _ found
    cases (region_empty i).symm.trans found

variable (a : SourceArena)

theorem source_some (i : Nat) (bytes : Bytes) :
    a.source? i = some bytes ↔ ∃ r, a.region? i = some r ∧ slice a.buffer r = bytes :=
  Option.map_eq_some_iff

theorem source_length (sound : a.Sound) (i : Nat) (bytes : Bytes) (found : a.source? i = some bytes) :
    0 < bytes.length ∧ ∃ r, a.region? i = some r ∧ r.size = bytes.length := by
  obtain ⟨r, region, content⟩ := (a.source_some i bytes).mp found
  obtain ⟨positive, stop⟩ := sound.inside i r region
  have length := slice_length a.buffer r (sound.length.symm ▸ stop)
  rw [content] at length
  exact ⟨length.symm ▸ positive, r, region, length.symm⟩

theorem region_release (id i : Nat) (inside : id < slotCount) :
    (a.release id).region? i = if i = id then none else a.region? i :=
  Slots.find_set a.regions id i none inside

theorem sound_release (sound : a.Sound) (id : Nat) (valid : id < slotCount) : (a.release id).Sound := by
  have kept (i : Nat) (r : Region) (found : (a.release id).region? i = some r) : a.region? i = some r := by
    rw [region_release a id i valid] at found
    by_cases gone : i = id
    · rw [if_pos gone] at found
      cases found
    · rwa [if_neg gone] at found
  exact ⟨sound.length, fun i r found => sound.inside i r (kept i r found),
    fun i j r s other first second => sound.apart i j r s other (kept i r first) (kept j s second)⟩

theorem source_release (id i : Nat) (valid : id < slotCount) :
    (a.release id).source? i = if i = id then none else a.source? i := by
  unfold source?
  rw [region_release a id i valid]
  split
  · rfl
  · rfl

theorem region_place (id offset i : Nat) (bytes : Bytes) (valid : id < slotCount) :
    (a.place id offset bytes).region? i = if i = id then some ⟨offset, bytes.length⟩ else a.region? i :=
  Slots.find_set a.regions id i _ valid

section
variable (id offset : Nat) (bytes : Bytes) (valid : id < slotCount) (inside : offset + bytes.length ≤ capacity)
  (free : ∀ j r, j ≠ id → a.region? j = some r → r.stop ≤ offset ∨ offset + bytes.length ≤ r.offset)
include valid inside free

theorem sound_place (sound : a.Sound) (nonempty : 0 < bytes.length) : (a.place id offset bytes).Sound := by
  refine ⟨?_, ?_, ?_⟩
  · exact (overwrite_length a.buffer bytes offset (sound.length.symm ▸ inside)).trans sound.length
  · intro i r found
    rw [region_place a id offset i bytes valid] at found
    by_cases here : i = id
    · rw [if_pos here] at found
      cases found
      exact ⟨nonempty, inside⟩
    · rw [if_neg here] at found
      exact sound.inside i r found
  · intro i j r s other first second
    rw [region_place a id offset _ bytes valid] at first second
    by_cases here : i = id
    · have away : j ≠ id := fun same => other (here.trans same.symm)
      rw [if_pos here] at first
      rw [if_neg away] at second
      cases first
      exact (free j s away second).symm
    · rw [if_neg here] at first
      by_cases there : j = id
      · rw [if_pos there] at second
        cases second
        exact free i r here first
      · rw [if_neg there] at second
        exact sound.apart i j r s other first second

theorem source_place (sound : a.Sound) (i : Nat) :
    (a.place id offset bytes).source? i = if i = id then some bytes else a.source? i := by
  have room : offset + bytes.length ≤ a.buffer.length := sound.length.symm ▸ inside
  unfold source?
  rw [region_place a id offset i bytes valid]
  by_cases here : i = id
  · rw [if_pos here, if_pos here]
    exact congrArg some (slice_overwritten a.buffer bytes offset room)
  · rw [if_neg here, if_neg here]
    cases found : a.region? i with
    | none => rfl
    | some r => exact congrArg some (slice_apart a.buffer bytes offset r room (free i r here found))

end

end SoftPlc.SourceArena
