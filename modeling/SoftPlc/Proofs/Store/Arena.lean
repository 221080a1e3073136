import SoftPlc.Proofs.Store.Regions

set_option autoImplicit false

namespace SoftPlc.SourceArena

theorem insert_owned_perm (o : Owned) (owned : List Owned) : (insertOwned o owned).Perm (o :: owned) := by
  induction owned with
  | nil => exact List.Perm.refl _
  | cons p rest ih =>
    by_cases before : p.2.offset ≤ o.2.offset
    · rw [insertOwned, if_pos before]
      exact (ih.cons p).trans (List.Perm.swap o p rest)
    · rw [insertOwned, if_neg before]

def Ordered (owned : List Owned) : Prop := owned.Pairwise fun p q => p.2.offset ≤ q.2.offset

theorem insert_owned_ordered (o : Owned) (owned : List Owned) (ordered : Ordered owned) :
    Ordered (insertOwned o owned) := by
  induction owned with
  | nil => exact List.pairwise_singleton _ _
  | cons p rest ih =>
    obtain ⟨first, others⟩ := List.pairwise_cons.mp ordered
    by_cases before : p.2.offset ≤ o.2.offset
    · rw [insertOwned, if_pos before]
      refine List.pairwise_cons.mpr ⟨?_, ih others⟩
      intro q member
      rcases List.mem_cons.mp ((insert_owned_perm o rest).mem_iff.mp member) with rfl | later
      · exact before
      · exact first q later
    · rw [insertOwned, if_neg before]
      refine List.pairwise_cons.mpr ⟨?_, ordered⟩
      intro q member
      rcases List.mem_cons.mp member with rfl | later
      · omega
      · have next := first q later
        omega

theorem by_address_from (owned sorted : List Owned) (ordered : Ordered sorted) :
    (owned.foldl (fun sorted o => insertOwned o sorted) sorted).Perm (owned ++ sorted) ∧
      Ordered (owned.foldl (fun sorted o => insertOwned o sorted) sorted) := by
  induction owned generalizing sorted with
  | nil => exact ⟨List.Perm.refl _, ordered⟩
  | cons o rest ih =>
    obtain ⟨perm, still⟩ := ih (insertOwned o sorted) (insert_owned_ordered o sorted ordered)
    refine ⟨perm.trans ?_, still⟩
    exact ((insert_owned_perm o sorted).append_left rest).trans List.perm_middle

theorem by_address_perm (owned : List Owned) : (byAddress owned).Perm owned := by
  have perm := (by_address_from owned [] List.Pairwise.nil).1
  rwa [List.append_nil] at perm

theorem by_address_ordered (owned : List Owned) : Ordered (byAddress owned) :=
  (by_address_from owned [] List.Pairwise.nil).2

-- Regions in the order of their addresses, from a cursor on, none of which reaches into the next.
def Stacked (cursor : Nat) : List Owned → Prop
  | [] => cursor ≤ capacity
  | (_, r) :: rest => cursor ≤ r.offset ∧ Stacked r.stop rest

theorem stacked_less (cursor less : Nat) (owned : List Owned) (stacked : Stacked cursor owned)
    (before : less ≤ cursor) : Stacked less owned := by
  cases owned with
  | nil => exact Nat.le_trans before stacked
  | cons o rest => exact ⟨Nat.le_trans before stacked.1, stacked.2⟩

theorem stacked_behind (cursor : Nat) (owned : List Owned) (stacked : Stacked cursor owned) :
    ∀ o ∈ owned, cursor ≤ o.2.offset := by
  induction owned generalizing cursor with
  | nil => simp
  | cons o rest ih =>
    intro p member
    rcases List.mem_cons.mp member with rfl | later
    · exact stacked.1
    · have next := ih o.2.stop stacked.2 p later
      have first := stacked.1
      unfold Region.stop at next
      omega

theorem occupied_cons (o : Owned) (owned : List Owned) : occupied (o :: owned) = o.2.size + occupied owned := rfl

theorem occupied_sum (owned : List Owned) : occupied owned = (owned.map (·.2.size)).sum := by
  induction owned with
  | nil => rfl
  | cons o rest ih => rw [occupied_cons, ih, List.map_cons, List.sum_cons]

theorem stacked_total (cursor : Nat) (owned : List Owned) (stacked : Stacked cursor owned) :
    cursor + occupied owned ≤ capacity := by
  induction owned generalizing cursor with
  | nil => exact stacked
  | cons o rest ih =>
    have others := ih o.2.stop stacked.2
    have first := stacked.1
    rw [occupied_cons]
    unfold Region.stop at others
    omega

theorem stacked_from (cursor : Nat) (owned : List Owned) (ordered : Ordered owned)
    (apart : owned.Pairwise fun p q => p.2.stop ≤ q.2.offset ∨ q.2.stop ≤ p.2.offset)
    (inside : ∀ o ∈ owned, 0 < o.2.size ∧ o.2.stop ≤ capacity) (room : cursor ≤ capacity)
    (behind : ∀ o ∈ owned, cursor ≤ o.2.offset) : Stacked cursor owned := by
  induction owned generalizing cursor with
  | nil => exact room
  | cons o rest ih =>
    obtain ⟨order, others⟩ := List.pairwise_cons.mp ordered
    obtain ⟨gap, gaps⟩ := List.pairwise_cons.mp apart
    refine ⟨behind o List.mem_cons_self, ?_⟩
    apply ih o.2.stop others gaps (fun p member => inside p (List.mem_cons_of_mem o member))
      (inside o List.mem_cons_self).2
    intro p member
    have later := order p member
    have positive := (inside p (List.mem_cons_of_mem o member)).1
    have between := gap p member
    unfold Region.stop at between ⊢
    omega

variable (a : SourceArena)

theorem mem_others (skip : Option Nat) (i : Nat) (r : Region) :
    (i, r) ∈ a.others skip ↔ a.region? i = some r ∧ skip ≠ some i :=
  (by_address_perm _).mem_iff.trans (Slots.mem_filled_except a.regions skip i r)

theorem others_nodup (skip : Option Nat) : ((a.others skip).map (·.1)).Nodup :=
  ((by_address_perm _).map _).nodup_iff.mpr (Slots.filled_except_nodup a.regions skip)

theorem others_stacked (sound : a.Sound) (skip : Option Nat) : Stacked 0 (a.others skip) := by
  apply stacked_from 0 _ (by_address_ordered _)
  · have distinct := List.pairwise_map.mp (a.others_nodup skip)
    refine distinct.imp_of_mem ?_
    rintro ⟨i, r⟩ ⟨j, s⟩ first second other
    exact sound.apart i j r s other ((a.mem_others skip i r).mp first).1 ((a.mem_others skip j s).mp second).1
  · rintro ⟨i, r⟩ member
    exact sound.inside i r ((a.mem_others skip i r).mp member).1
  · exact Nat.zero_le _
  · exact fun o _ => Nat.zero_le _

theorem gap_free (cursor : Nat) (owned : List Owned) (gap : Nat × Nat) (stacked : Stacked cursor owned)
    (found : gap ∈ gapsFrom cursor owned) :
    cursor ≤ gap.1 ∧ gap.1 + gap.2 ≤ capacity ∧
      ∀ o ∈ owned, o.2.stop ≤ gap.1 ∨ gap.1 + gap.2 ≤ o.2.offset := by
  induction owned generalizing cursor with
  | nil =>
    by_cases before : cursor < capacity
    · rw [gapsFrom, if_pos before] at found
      cases List.mem_singleton.mp found
      refine ⟨Nat.le_refl _, ?_, by simp⟩
      simp only
      omega
    · rw [gapsFrom, if_neg before] at found
      cases found
  | cons o rest ih =>
    have first := stacked.1
    have stop : max cursor o.2.stop = o.2.stop := by
      unfold Region.stop
      omega
    have total := stacked_total o.2.stop rest stacked.2
    have behind := stacked_behind o.2.stop rest stacked.2
    simp only [gapsFrom, stop] at found
    have later (inside : gap ∈ gapsFrom o.2.stop rest) :
        cursor ≤ gap.1 ∧ gap.1 + gap.2 ≤ capacity ∧
          ∀ p ∈ o :: rest, p.2.stop ≤ gap.1 ∨ gap.1 + gap.2 ≤ p.2.offset := by
      obtain ⟨start, room, free⟩ := ih o.2.stop stacked.2 inside
      unfold Region.stop at start
      refine ⟨by omega, room, ?_⟩
      intro p member
      rcases List.mem_cons.mp member with rfl | other
      · exact .inl start
      · exact free p other
    unfold Region.stop at total behind
    by_cases before : cursor < o.2.offset
    · rw [if_pos before] at found
      rcases List.mem_cons.mp found with rfl | inside
      · refine ⟨Nat.le_refl _, by simp only; omega, ?_⟩
        intro p member
        rcases List.mem_cons.mp member with rfl | other
        · exact .inr (by simp only; omega)
        · have next := behind p other
          exact .inr (by simp only; omega)
      · exact later inside
    · rw [if_neg before] at found
      exact later found

def held (i : Nat) : Nat := ((a.source? i).getD []).length

theorem held_region (sound : a.Sound) (i : Nat) : ((a.region? i).map (·.size)).getD 0 = a.held i := by
  unfold held source?
  cases found : a.region? i with
  | none => rfl
  | some r =>
    have stop := (sound.inside i r found).2
    exact (slice_length a.buffer r (sound.length.symm ▸ stop)).symm

theorem others_total (sound : a.Sound) (skip : Option Nat) :
    occupied (a.others skip) = ∑ i : Fin slotCount, if skip = some i.val then 0 else a.held i := by
  rw [occupied_sum, others, ((by_address_perm _).map _).sum_eq, Slots.sum_filled_except a.regions skip (·.size)]
  refine Finset.sum_congr rfl fun i _ => ?_
  rw [← held_region a sound i]
  rfl

theorem used_total (sound : a.Sound) : a.used = ∑ i : Fin slotCount, a.held i := by
  have total := Slots.sum_filled_except a.regions none (·.size)
  simp only [reduceCtorEq, if_false] at total
  rw [used, occupied_sum]
  exact total.trans (Finset.sum_congr rfl fun i _ => held_region a sound i)

theorem region_valid (i : Nat) (r : Region) (found : a.region? i = some r) : i < slotCount := by
  by_contra outside
  have none := Slots.find_outside a.regions i (Nat.not_lt.mp outside)
  cases none.symm.trans found

-- While regions are moved down, those that are left lie behind the cursor and those that were
-- moved in front of it.
structure Moving (cursor : Nat) (a : SourceArena) (owned : List Owned) : Prop where
  sound : a.Sound
  stacked : Stacked cursor owned
  distinct : (owned.map (·.1)).Nodup
  here : ∀ o ∈ owned, a.region? o.1 = some o.2
  done : ∀ i r, a.region? i = some r → (i, r) ∈ owned ∨ r.stop ≤ cursor

section
variable (cursor : Nat) (a : SourceArena) (id : Nat) (r : Region) (rest : List Owned)
  (moving : Moving cursor a ((id, r) :: rest))
include moving

theorem moving_length : (slice a.buffer r).length = r.size :=
  slice_length a.buffer r (moving.sound.length.symm ▸ (moving.sound.inside id r (moving.here _ List.mem_cons_self)).2)

theorem moving_inside : cursor + (slice a.buffer r).length ≤ capacity := by
  have stop := (moving.sound.inside id r (moving.here _ List.mem_cons_self)).2
  have first : cursor ≤ r.offset := moving.stacked.1
  rw [moving_length cursor a id r rest moving]
  unfold Region.stop at stop
  omega

theorem moving_free (j : Nat) (s : Region) (other : j ≠ id) (found : a.region? j = some s) :
    s.stop ≤ cursor ∨ cursor + (slice a.buffer r).length ≤ s.offset := by
  rw [moving_length cursor a id r rest moving]
  rcases moving.done j s found with member | before
  · rcases List.mem_cons.mp member with same | later
    · cases same
      exact absurd rfl other
    · have first : cursor ≤ r.offset := moving.stacked.1
      have next := stacked_behind r.stop rest moving.stacked.2 (j, s) later
      unfold Region.stop at next
      exact .inr (by simp only at next; omega)
  · exact .inl before

theorem moving_first : Moving (cursor + r.size) (a.place id cursor (slice a.buffer r)) rest ∧
    ∀ i, (a.place id cursor (slice a.buffer r)).source? i = a.source? i := by
  have region := moving.here _ List.mem_cons_self
  have valid := a.region_valid id r region
  have length := moving_length cursor a id r rest moving
  have inside := moving_inside cursor a id r rest moving
  have free := moving_free cursor a id r rest moving
  have positive := (moving.sound.inside id r region).1
  have first : cursor ≤ r.offset := moving.stacked.1
  obtain ⟨fresh, distinct⟩ := List.nodup_cons.mp moving.distinct
  refine ⟨{ sound := ?_, stacked := ?_, distinct, here := ?_, done := ?_ }, fun i => ?_⟩
  · exact sound_place a id cursor _ valid inside free moving.sound (length.symm ▸ positive)
  · exact stacked_less r.stop _ rest moving.stacked.2 (by unfold Region.stop; omega)
  · intro o member
    have other : o.1 ≠ id := fun same => fresh (List.mem_map.mpr ⟨o, member, same⟩)
    rw [region_place a id cursor o.1 _ valid, if_neg other]
    exact moving.here o (List.mem_cons_of_mem _ member)
  · intro i s found
    rw [region_place a id cursor i _ valid] at found
    by_cases own : i = id
    · rw [if_pos own] at found
      cases found
      exact .inr (by unfold Region.stop; simp only; omega)
    · rw [if_neg own] at found
      rcases moving.done i s found with member | before
      · rcases List.mem_cons.mp member with same | later
        · cases same
          exact absurd rfl own
        · exact .inl later
      · exact .inr (by omega)
  · rw [source_place a id cursor _ valid inside free moving.sound i]
    by_cases same : i = id
    · subst same
      rw [if_pos rfl, source?, region]
      rfl
    · rw [if_neg same]

end

theorem move_down_keeps (cursor : Nat) (a : SourceArena) (owned : List Owned) (moving : Moving cursor a owned) :
    (moveDown cursor a owned).Sound ∧ (∀ i, (moveDown cursor a owned).source? i = a.source? i) ∧
      ∀ i r, (moveDown cursor a owned).region? i = some r → r.stop ≤ cursor + occupied owned := by
  induction owned generalizing cursor a with
  | nil =>
    refine ⟨moving.sound, fun _ => rfl, ?_⟩
    intro i r found
    rcases moving.done i r found with inside | stop
    · cases inside
    · exact stop
  | cons o rest ih =>
    obtain ⟨id, r⟩ := o
    obtain ⟨later, kept⟩ := moving_first cursor a id r rest moving
    have moved : moveDown cursor a ((id, r) :: rest) =
        moveDown (cursor + r.size) (a.place id cursor (slice a.buffer r)) rest := by
      rw [moveDown, place, moving_length cursor a id r rest moving]
    obtain ⟨result, sources, stops⟩ := ih _ _ later
    rw [moved, occupied_cons]
    refine ⟨result, fun i => (sources i).trans (kept i), fun i s found => ?_⟩
    have last := stops i s found
    simp only
    omega

theorem compact_keeps (sound : a.Sound) :
    a.compact.Sound ∧ (∀ i, a.compact.source? i = a.source? i) ∧
      ∀ i r, a.compact.region? i = some r → r.stop ≤ a.compact.used := by
  obtain ⟨result, sources, stops⟩ := move_down_keeps 0 a (a.others none) {
    sound
    stacked := a.others_stacked sound none
    distinct := a.others_nodup none
    here := fun o member => ((a.mem_others none o.1 o.2).mp member).1
    done := fun i r found => .inl ((a.mem_others none i r).mpr ⟨found, by simp⟩) }
  have total : occupied (a.others none) = a.compact.used := by
    rw [others_total a sound, used_total a.compact result]
    simp only [reduceCtorEq, if_false]
    exact Finset.sum_congr rfl fun i _ => by rw [held, held, ← sources]; rfl
  refine ⟨result, sources, ?_⟩
  intro i r found
  have last := stops i r found
  rwa [Nat.zero_add, total] at last

def heldByOthers (id : Nat) : Nat := ∑ i : Fin slotCount, if some id = some i.val then 0 else a.held i

theorem used_without (sound : a.Sound) (id : Nat) (valid : id < slotCount) :
    (a.release id).compact.used = a.heldByOthers id := by
  obtain ⟨result, sources, _⟩ := compact_keeps (a.release id) (sound_release a sound id valid)
  rw [used_total _ result]
  refine Finset.sum_congr rfl fun i _ => ?_
  rw [held, sources, source_release a id i valid]
  by_cases same : i.val = id
  · rw [if_pos same, if_pos (by rw [same])]
    rfl
  · rw [if_neg same, if_neg (by simpa using Ne.symm same), held]

theorem place_released (b : SourceArena) (id offset : Nat) (bytes : Bytes) (valid : id < slotCount)
    (filled : bytes ≠ []) (keeps : b.Sound) (same : ∀ i, b.source? i = (a.release id).source? i)
    (inside : offset + bytes.length ≤ capacity)
    (free : ∀ j r, j ≠ id → b.region? j = some r → r.stop ≤ offset ∨ offset + bytes.length ≤ r.offset) :
    (b.place id offset bytes).Sound ∧ ∀ i, (b.place id offset bytes).source? i =
      if i = id then (if bytes = [] then none else some bytes) else a.source? i := by
  refine ⟨sound_place b id offset bytes valid inside free keeps (List.length_pos_iff.mpr filled), ?_⟩
  intro i
  rw [source_place b id offset bytes valid inside free keeps i, if_neg filled, same i, source_release a id i valid]
  split
  · rfl
  · rfl

theorem upload_cases (a' : SourceArena) (id : Nat) (bytes : Bytes) (uploaded : a.upload id bytes = (.ok (), a')) :
    id < slotCount ∧
      (bytes = [] ∧ a' = a.release id ∨
        bytes ≠ [] ∧ bytes.length ≤ capacity - occupied (a.others (some id)) ∧
          ((∃ gap ∈ (a.release id).gaps, bytes.length ≤ gap.2 ∧ a' = (a.release id).place id gap.1 bytes) ∨
            (∀ gap ∈ (a.release id).gaps, gap.2 < bytes.length) ∧
              a' = (a.release id).compact.place id (a.release id).compact.used bytes)) := by
  unfold upload at uploaded
  by_cases outside : slotCount ≤ id
  · rw [if_pos outside] at uploaded
    cases uploaded
  · rw [if_neg outside] at uploaded
    refine ⟨Nat.not_le.mp outside, ?_⟩
    by_cases empty : bytes.isEmpty
    · rw [if_pos empty] at uploaded
      exact .inl ⟨List.isEmpty_iff.mp empty, (congrArg Prod.snd uploaded).symm⟩
    · simp only [if_neg empty] at uploaded
      by_cases less : capacity - occupied (a.others (some id)) < bytes.length
      · rw [if_pos less] at uploaded
        cases uploaded
      · rw [if_neg less] at uploaded
        refine .inr ⟨by simpa using empty, Nat.not_lt.mp less, ?_⟩
        split at uploaded
        · rename_i start size found
          have large : bytes.length ≤ size := by simpa using List.find?_some found
          exact .inl ⟨(start, size), List.mem_of_find?_eq_some found, large, (congrArg Prod.snd uploaded).symm⟩
        · rename_i missing
          refine .inr ⟨fun gap member => ?_, (congrArg Prod.snd uploaded).symm⟩
          simpa using List.find?_eq_none.mp missing gap member

theorem upload_ok (a' : SourceArena) (id : Nat) (bytes : Bytes) (sound : a.Sound)
    (uploaded : a.upload id bytes = (.ok (), a')) :
    a'.Sound ∧ ∀ i, a'.source? i = if i = id then (if bytes = [] then none else some bytes) else a.source? i := by
  obtain ⟨valid, done⟩ := a.upload_cases a' id bytes uploaded
  have released := sound_release a sound id valid
  rcases done with ⟨empty, rfl⟩ | ⟨filled, fits, ⟨gap, member, large, rfl⟩ | ⟨_, rfl⟩⟩
  · refine ⟨released, ?_⟩
    intro i
    rw [source_release a id i valid, if_pos empty]
  · obtain ⟨_, room, free⟩ := gap_free 0 _ gap ((a.release id).others_stacked released none) member
    refine place_released a (a.release id) id gap.1 bytes valid filled released (fun _ => rfl) (by omega) ?_
    intro j r _ region
    have apart := free (j, r) (((a.release id).mem_others none j r).mpr ⟨region, by simp⟩)
    simp only at apart
    omega
  · obtain ⟨keeps, same, stops⟩ := compact_keeps (a.release id) released
    refine place_released a _ id _ bytes valid filled keeps same ?_ (fun j r _ region => .inl (stops j r region))
    have positive := List.length_pos_iff.mpr filled
    rw [used_without a sound id valid]
    rw [others_total a sound (some id)] at fits
    unfold heldByOthers
    omega

theorem upload_refused (id : Nat) (bytes : Bytes) (f : Fault) (refused : (a.upload id bytes).1 = .error f) :
    (a.upload id bytes).2 = a := by
  unfold upload at refused ⊢
  by_cases outside : slotCount ≤ id
  · rw [if_pos outside]
  · simp only [if_neg outside] at refused ⊢
    by_cases empty : bytes.isEmpty
    · rw [if_pos empty] at refused
      cases refused
    · simp only [if_neg empty] at refused ⊢
      by_cases less : capacity - occupied (a.others (some id)) < bytes.length
      · rw [if_pos less]
      · rw [if_neg less] at refused
        split at refused <;> cases refused

theorem upload_either (id : Nat) (bytes : Bytes) :
    (∃ a', a.upload id bytes = (.ok (), a')) ∨ ∃ f, a.upload id bytes = (.error f, a) := by
  cases answered : (a.upload id bytes).1 with
  | ok => exact .inl ⟨_, Prod.ext answered rfl⟩
  | error f => exact .inr ⟨f, Prod.ext answered (a.upload_refused id bytes f answered)⟩

theorem upload_accepts (id : Nat) (bytes : Bytes) (sound : a.Sound) (valid : id < slotCount)
    (room : a.heldByOthers id + bytes.length ≤ capacity) :
    ∃ a', a.upload id bytes = (.ok (), a') := by
  unfold upload
  rw [if_neg (Nat.not_le.mpr valid)]
  split
  · exact ⟨_, rfl⟩
  · have fits : ¬ capacity - occupied (a.others (some id)) < bytes.length := by
      rw [others_total a sound (some id)]
      unfold heldByOthers at room
      omega
    simp only [if_neg fits]
    split
    · exact ⟨_, rfl⟩
    · exact ⟨_, rfl⟩

theorem used_within (sound : a.Sound) : a.used ≤ capacity := by
  have total := stacked_total 0 _ (a.others_stacked sound none)
  rw [others_total a sound none, Nat.zero_add] at total
  simp only [reduceCtorEq, if_false] at total
  rwa [used_total a sound]

theorem held_by_others_le (sound : a.Sound) (id : Fin slotCount) : a.heldByOthers id ≤ a.used := by
  rw [used_total a sound, Slots.sum_split (fun i => a.held i) id]
  exact Nat.le_add_left _ _

theorem upload_used (a' : SourceArena) (id : Fin slotCount) (bytes : Bytes) (sound : a.Sound)
    (uploaded : a.upload id bytes = (.ok (), a')) : a'.used = a.heldByOthers id + bytes.length := by
  obtain ⟨keeps, sources⟩ := upload_ok a a' id bytes sound uploaded
  have own : a'.held id = bytes.length := by
    rw [held, sources, if_pos rfl]
    by_cases empty : bytes = []
    · rw [if_pos empty, empty]
      rfl
    · rw [if_neg empty]
      rfl
  rw [used_total a' keeps, Slots.sum_split (fun i => a'.held i) id, own, Nat.add_comm]
  congr 1
  refine Finset.sum_congr rfl fun i _ => ?_
  by_cases same : some id.val = some i.val
  · rw [if_pos same, if_pos same]
  · rw [if_neg same, if_neg same, held, held, sources, if_neg (fun equal => same (by rw [equal]))]

end SoftPlc.SourceArena
