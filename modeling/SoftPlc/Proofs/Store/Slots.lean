import Mathlib.Algebra.BigOperators.Fin
import SoftPlc.Store.Basic

set_option autoImplicit false

namespace SoftPlc.Slots

variable {α β : Type}

@[simp]
theorem get_put_self (s : Slots α) (i : Fin slotCount) (a : α) : (s.put i a).get i = a :=
  Vector.getElem_set_self i.isLt

theorem put_get_self (s : Slots α) (i : Fin slotCount) : s.put i (s.get i) = s :=
  Vector.set_getElem_self i.isLt

theorem get_put_other (s : Slots α) (i j : Fin slotCount) (a : α) (other : i ≠ j) : (s.put i a).get j = s.get j :=
  Vector.getElem_set_ne i.isLt j.isLt fun same => other (Fin.ext same)

@[simp]
theorem get_of_fn (f : Fin slotCount → α) (i : Fin slotCount) : Vector.get (Vector.ofFn f) i = f i :=
  Vector.getElem_ofFn i.isLt

@[simp]
theorem get_replicate (a : α) (i : Fin slotCount) : Vector.get (Vector.replicate slotCount a) i = a :=
  Vector.getElem_replicate i.isLt

@[simp]
theorem get_map (s : Slots α) (f : α → β) (i : Fin slotCount) : Vector.get (s.map f) i = f (s.get i) :=
  Vector.getElem_map f i.isLt

@[simp]
theorem get_map_idx (s : Slots α) (f : Nat → α → β) (i : Fin slotCount) : Vector.get (s.mapIdx f) i = f i (s.get i) :=
  Vector.getElem_mapIdx i.isLt

@[simp]
theorem get_some (s : Slots α) (i : Fin slotCount) : s[i.val]? = some (s.get i) :=
  Vector.getElem?_eq_getElem i.isLt

theorem numbered_fin (s : Slots α) : s.numbered = (List.finRange slotCount).map fun i => (i.val, s.get i) := by
  apply List.ext_getElem
  · simp [numbered]
  · intro i inside other
    simp [numbered, Vector.get]

theorem to_list_of_fn (s : Slots α) : s.toList = List.ofFn s.get := by
  apply List.ext_getElem
  · simp
  · intro i inside other
    simp [Vector.get]

theorem numbered_length (s : Slots α) : s.numbered.length = slotCount := by
  simp [numbered]

theorem mem_numbered (s : Slots α) (id : Nat) (a : α) : (id, a) ∈ s.numbered ↔ s[id]? = some a := by
  rw [numbered_fin, List.mem_map]
  constructor
  · rintro ⟨i, _, same⟩
    cases same
    exact get_some s i
  · intro found
    obtain ⟨inside, here⟩ := Vector.getElem?_eq_some_iff.mp found
    exact ⟨⟨id, inside⟩, List.mem_finRange _, congrArg (Prod.mk id) here⟩

theorem find_some (s : Slots (Option α)) (id : Nat) (a : α) : s.find? id = some a ↔ s[id]? = some (some a) := by
  simp [find?, Option.join_eq_some_iff]

theorem mem_filled_except (s : Slots (Option α)) (skip : Option Nat) (id : Nat) (a : α) :
    (id, a) ∈ s.filledExcept skip ↔ s.find? id = some a ∧ skip ≠ some id := by
  rw [find_some, filledExcept, List.mem_filterMap]
  constructor
  · rintro ⟨⟨i, entry⟩, member, kept⟩
    by_cases skipped : skip = some i
    · simp only [if_pos skipped] at kept
      cases kept
    · simp only [if_neg skipped] at kept
      obtain ⟨b, filled, same⟩ := Option.map_eq_some_iff.mp kept
      cases same
      exact ⟨filled ▸ (mem_numbered s _ entry).mp member, skipped⟩
  · rintro ⟨found, other⟩
    exact ⟨(id, some a), (mem_numbered s id (some a)).mpr found, by simp [other]⟩

theorem filled_except_nodup (s : Slots (Option α)) (skip : Option Nat) :
    ((s.filledExcept skip).map (·.1)).Nodup := by
  have numbers : (s.numbered.map (·.1)).Nodup := by
    rw [numbered_fin, List.map_map]
    exact (List.nodup_finRange slotCount).map Fin.val_injective
  have part : ((s.filledExcept skip).map (·.1)).Sublist (s.numbered.map (·.1)) := by
    unfold filledExcept
    induction s.numbered with
    | nil => exact List.Sublist.refl []
    | cons entry rest ih =>
      by_cases skipped : skip = some entry.1
      · simp only [List.filterMap_cons, if_pos skipped, List.map_cons]
        exact ih.cons _
      · cases filled : entry.2 with
        | none =>
          simp only [List.filterMap_cons, if_neg skipped, filled, Option.map_none, List.map_cons]
          exact ih.cons _
        | some a =>
          simp only [List.filterMap_cons, if_neg skipped, filled, Option.map_some, List.map_cons]
          exact ih.cons_cons _
  exact numbers.sublist part

theorem find_set (s : Slots (Option α)) (id other : Nat) (a : Option α) (inside : id < slotCount) :
    Slots.find? (s.setIfInBounds id a) other = if other = id then a else s.find? other := by
  unfold find?
  by_cases same : other = id
  · subst same
    rw [if_pos rfl, Vector.getElem?_setIfInBounds_self_of_lt inside]
    rfl
  · rw [if_neg same, Vector.getElem?_setIfInBounds_ne (Ne.symm same)]

theorem find_outside (s : Slots (Option α)) (id : Nat) (outside : slotCount ≤ id) : s.find? id = none := by
  simp [find?, outside]

theorem sum_filter_map {β : Type} (f : β → Option α) (size : α → Nat) (items : List β) :
    ((items.filterMap f).map size).sum = (items.map fun b => ((f b).map size).getD 0).sum := by
  induction items with
  | nil => rfl
  | cons b items ih => cases found : f b <;> simp [found, ih]

theorem sum_filled_except (s : Slots (Option α)) (skip : Option Nat) (size : α → Nat) :
    ((s.filledExcept skip).map fun entry => size entry.2).sum =
      ∑ i : Fin slotCount, if skip = some i.val then 0 else ((s.find? i).map size).getD 0 := by
  rw [filledExcept, sum_filter_map _ (fun entry : Nat × α => size entry.2), numbered_fin, List.map_map, ← List.sum_ofFn,
    List.ofFn_eq_map]
  congr 1
  apply List.map_congr_left
  intro i _
  have here : s.find? i = s.get i := by rw [find?, get_some]; rfl
  simp only [Function.comp_apply, here]
  by_cases skipped : skip = some i.val
  · simp [skipped]
  · cases s.get i <;> simp [skipped]

theorem sum_split (f : Fin slotCount → Nat) (id : Fin slotCount) :
    ∑ i, f i = f id + ∑ i : Fin slotCount, if some id.val = some i.val then 0 else f i := by
  rw [← Finset.add_sum_erase Finset.univ f (Finset.mem_univ id)]
  congr 1
  rw [← Finset.add_sum_erase Finset.univ _ (Finset.mem_univ id), if_pos rfl, Nat.zero_add]
  refine Finset.sum_congr rfl fun i member => ?_
  have other : id.val ≠ i.val := fun same => (Finset.mem_erase.mp member).1 (Fin.ext same.symm)
  rw [if_neg (by simpa using other)]

end SoftPlc.Slots
