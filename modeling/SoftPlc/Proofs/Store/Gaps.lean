import Mathlib.Data.List.Fold
import Mathlib.Data.List.MinMax
import SoftPlc.Proofs.Store.Arena

set_option autoImplicit false

namespace SoftPlc.SourceArena

theorem gap_total (cursor : Nat) (owned : List Owned) (gap : Nat × Nat) (stacked : Stacked cursor owned)
    (found : gap ∈ gapsFrom cursor owned) : cursor + occupied owned + gap.2 ≤ capacity := by
  induction owned generalizing cursor with
  | nil =>
    by_cases before : cursor < capacity
    · rw [gapsFrom, if_pos before] at found
      cases List.mem_singleton.mp found
      simp only [occupied, List.foldr_nil]
      omega
    · rw [gapsFrom, if_neg before] at found
      cases found
  | cons o rest ih =>
    have first := stacked.1
    have total := stacked_total o.2.stop rest stacked.2
    have stop : max cursor o.2.stop = o.2.stop := by
      unfold Region.stop
      omega
    simp only [gapsFrom, stop] at found
    rw [occupied_cons]
    have later (inside : gap ∈ gapsFrom o.2.stop rest) :
        cursor + (o.2.size + occupied rest) + gap.2 ≤ capacity := by
      have others := ih o.2.stop stacked.2 inside
      unfold Region.stop at others
      omega
    by_cases before : cursor < o.2.offset
    · rw [if_pos before] at found
      rcases List.mem_cons.mp found with rfl | inside
      · unfold Region.stop at total
        simp only
        omega
      · exact later inside
    · rw [if_neg before] at found
      exact later found

theorem gap_around (cursor start size : Nat) (owned : List Owned) (stacked : Stacked cursor owned)
    (behind : cursor ≤ start) (inside : start + size ≤ capacity) (positive : 0 < size)
    (free : ∀ o ∈ owned, o.2.stop ≤ start ∨ start + size ≤ o.2.offset) :
    ∃ gap ∈ gapsFrom cursor owned, size ≤ gap.2 := by
  induction owned generalizing cursor with
  | nil =>
    have before : cursor < capacity := by omega
    refine ⟨(cursor, capacity - cursor), ?_, by simp only; omega⟩
    rw [gapsFrom, if_pos before]
    exact List.mem_singleton_self _
  | cons o rest ih =>
    have first := stacked.1
    have stop : max cursor o.2.stop = o.2.stop := by
      unfold Region.stop
      omega
    simp only [gapsFrom, stop]
    rcases free o List.mem_cons_self with front | back
    · obtain ⟨gap, member, large⟩ := ih o.2.stop stacked.2 front fun p later => free p (List.mem_cons_of_mem o later)
      refine ⟨gap, ?_, large⟩
      by_cases before : cursor < o.2.offset
      · rw [if_pos before]
        exact List.mem_cons_of_mem _ member
      · rw [if_neg before]
        exact member
    · have before : cursor < o.2.offset := by omega
      rw [if_pos before]
      exact ⟨_, List.mem_cons_self, by simp only; omega⟩

variable (a : SourceArena)

theorem gap_le_free (sound : a.Sound) (gap : Nat × Nat) (found : gap ∈ a.gaps) : gap.2 ≤ a.free := by
  have total := gap_total 0 _ gap (a.others_stacked sound none) found
  rw [others_total a sound none] at total
  simp only [reduceCtorEq, if_false] at total
  rw [free, used_total a sound]
  omega

theorem largest_gap_le_free (sound : a.Sound) : a.largestGap ≤ a.free := by
  rw [largestGap, List.foldl_eq_foldr]
  refine List.max_le_of_forall_le _ _ fun n member => ?_
  obtain ⟨gap, found, rfl⟩ := List.mem_map.mp member
  exact a.gap_le_free sound gap found

theorem compact_largest_gap (sound : a.Sound) : a.compact.largestGap = a.compact.free := by
  obtain ⟨keeps, _, stops⟩ := compact_keeps a sound
  refine Nat.le_antisymm (largest_gap_le_free _ keeps) ?_
  by_cases full : a.compact.free = 0
  · rw [full]
    exact Nat.zero_le _
  · have within := used_within _ keeps
    have rest : a.compact.used + a.compact.free = capacity := by
      unfold free
      omega
    obtain ⟨gap, found, large⟩ := gap_around 0 a.compact.used a.compact.free _ (others_stacked _ keeps none)
      (Nat.zero_le _) (Nat.le_of_eq rest) (Nat.pos_of_ne_zero full)
      fun o member => .inl (stops o.1 o.2 ((a.compact.mem_others none o.1 o.2).mp member).1)
    rw [largestGap, List.foldl_eq_foldr]
    exact List.le_max_of_le (List.mem_map_of_mem found) large

-- Whether so many bytes are free from a place on, what the program itself holds counting as free.
def Room (id start size : Nat) : Prop :=
  start + size ≤ capacity ∧
    ∀ j r, j ≠ id → a.region? j = some r → r.stop ≤ start ∨ start + size ≤ r.offset

theorem room_gap (sound : a.Sound) (id start size : Nat) (valid : id < slotCount) (positive : 0 < size)
    (room : a.Room id start size) : ∃ gap ∈ (a.release id).gaps, size ≤ gap.2 := by
  refine gap_around 0 start size _ (others_stacked _ (sound_release a sound id valid) none) (Nat.zero_le _) room.1
    positive ?_
  rintro ⟨j, r⟩ member
  have region := ((a.release id).mem_others none j r).mp member |>.1
  rw [region_release a id j valid] at region
  by_cases own : j = id
  · rw [if_pos own] at region
    cases region
  · rw [if_neg own] at region
    exact room.2 j r own region

theorem upload_stays (a' : SourceArena) (id start : Nat) (bytes : Bytes) (sound : a.Sound)
    (uploaded : a.upload id bytes = (.ok (), a')) (room : a.Room id start bytes.length) (j : Nat) (other : j ≠ id) :
    a'.region? j = a.region? j := by
  obtain ⟨valid, done⟩ := a.upload_cases a' id bytes uploaded
  have released : (a.release id).region? j = a.region? j := by rw [region_release a id j valid, if_neg other]
  rcases done with ⟨_, rfl⟩ | ⟨filled, _, ⟨gap, _, _, rfl⟩ | ⟨small, _⟩⟩
  · exact released
  · rw [region_place _ id gap.1 j bytes valid, if_neg other, released]
  · obtain ⟨gap, member, large⟩ := a.room_gap sound id start _ valid (List.length_pos_iff.mpr filled) room
    exact absurd (small gap member) (Nat.not_lt.mpr large)

end SoftPlc.SourceArena
