import Mathlib.Algebra.Order.BigOperators.Group.Finset
import Mathlib.Data.List.Fold
import Mathlib.Data.List.MinMax
import Mathlib.Data.List.Sort
import Mathlib.Order.Interval.Finset.Nat
import SoftPlc.Proofs.Store.Slots
import SoftPlc.Store.ExportPool

set_option autoImplicit false

namespace SoftPlc

theorem byte_sum (m n : UInt8) (small : m.toNat + n.toNat < 256) : (m + n).toNat = m.toNat + n.toNat := by
  rw [UInt8.toNat_add]
  exact Nat.mod_eq_of_lt small

namespace Allocation

def behind (a : Allocation) : Nat := a.offset.toNat + a.size.toNat

theorem stop_behind (a : Allocation) (small : a.behind < 256) : a.stop.toNat = a.behind :=
  byte_sum a.offset a.size small

end Allocation

namespace ExportPool

-- What holds of every pool: each slice is in the export registers and no two of them meet.
structure Sound (p : ExportPool) : Prop where
  inside : ∀ i a, p.allocation? i = some a → 0 < a.size.toNat ∧ a.behind ≤ 32
  apart : ∀ i j a b, i ≠ j → p.allocation? i = some a → p.allocation? j = some b →
    a.behind ≤ b.offset.toNat ∨ b.behind ≤ a.offset.toNat

theorem allocation_empty (i : Nat) : ExportPool.allocation? {} i = none := by
  simp only [allocation?, Slots.find?, Vector.getElem?_replicate]
  split <;> rfl

theorem sound_empty : Sound {} := by
  refine ⟨?_, ?_⟩
  · intro i a found
    cases (allocation_empty i).symm.trans found
  · intro i j a b _ found
    cases (allocation_empty i).symm.trans found

section
variable (p : ExportPool)

theorem allocation_valid (i : Nat) (a : Allocation) (found : p.allocation? i = some a) : i < slotCount := by
  by_contra outside
  have none := Slots.find_outside p.allocations i (Nat.not_lt.mp outside)
  cases none.symm.trans found

theorem allocation_set (id i : Nat) (a : Option Allocation) (valid : id < slotCount) :
    ExportPool.allocation? { allocations := p.allocations.setIfInBounds id a } i =
      if i = id then a else p.allocation? i :=
  Slots.find_set p.allocations id i a valid

theorem allocation_release (id i : Nat) :
    (p.release id).allocation? i = if i = id then none else p.allocation? i := by
  by_cases valid : id < slotCount
  · exact p.allocation_set id i none valid
  · have outside := Nat.not_lt.mp valid
    have same : p.release id = p := by
      simp only [release, Vector.setIfInBounds_eq_of_size_le outside]
    rw [same]
    by_cases here : i = id
    · rw [if_pos here, here, allocation?, Slots.find_outside p.allocations id outside]
    · rw [if_neg here]

theorem sound_release (sound : p.Sound) (id : Nat) : (p.release id).Sound := by
  have kept (i : Nat) (a : Allocation) (found : (p.release id).allocation? i = some a) : p.allocation? i = some a := by
    rw [allocation_release] at found
    by_cases gone : i = id
    · rw [if_pos gone] at found
      cases found
    · rwa [if_neg gone] at found
  exact ⟨fun i a found => sound.inside i a (kept i a found),
    fun i j a b other first second => sound.apart i j a b other (kept i a first) (kept j b second)⟩

theorem sound_placed (sound : p.Sound) (id : Nat) (new : Allocation) (valid : id < slotCount)
    (positive : 0 < new.size.toNat) (within : new.behind ≤ 32)
    (others : ∀ i a, i ≠ id → p.allocation? i = some a → a.behind ≤ new.offset.toNat) :
    Sound { allocations := p.allocations.setIfInBounds id (some new) } := by
  refine ⟨?_, ?_⟩
  · intro i a found
    rw [allocation_set p id i _ valid] at found
    by_cases here : i = id
    · rw [if_pos here] at found
      cases found
      exact ⟨positive, within⟩
    · rw [if_neg here] at found
      exact sound.inside i a found
  · intro i j a b other first second
    rw [allocation_set p id _ _ valid] at first second
    by_cases here : i = id
    · have away : j ≠ id := fun same => other (here.trans same.symm)
      rw [if_pos here] at first
      rw [if_neg away] at second
      cases first
      exact .inr (others j b away second)
    · rw [if_neg here] at first
      by_cases there : j = id
      · rw [if_pos there] at second
        cases second
        exact .inl (others i a here first)
      · rw [if_neg there] at second
        exact sound.apart i j a b other first second

theorem mem_held (skip : Option Nat) (h : Held) :
    h ∈ p.allocations.filledExcept skip ↔ p.allocation? h.1 = some h.2 ∧ skip ≠ some h.1 :=
  Slots.mem_filled_except p.allocations skip h.1 h.2

theorem max_toNat (m n : UInt8) : (max m n).toNat = max m.toNat n.toNat := by
  by_cases le : m ≤ n
  · have less : m.toNat ≤ n.toNat := UInt8.le_iff_toNat_le.mp le
    rw [Nat.max_eq_right less]
    exact congrArg UInt8.toNat (if_pos le)
  · have more : n.toNat ≤ m.toNat := by
      have other := mt UInt8.le_iff_toNat_le.mpr le
      omega
    rw [Nat.max_eq_left more]
    exact congrArg UInt8.toNat (if_neg le)

theorem largest_toNat (stops : List UInt8) (start : UInt8) :
    (stops.foldl max start).toNat = (stops.map UInt8.toNat).foldl max start.toNat := by
  induction stops generalizing start with
  | nil => rfl
  | cons n rest ih => rw [List.foldl_cons, ih, max_toNat, List.map_cons, List.foldl_cons]

theorem high_water_toNat (skip : Nat) :
    (p.highWater skip).toNat =
      ((p.allocations.filledExcept (some skip)).map (·.2.stop.toNat)).foldr max 0 := by
  rw [highWater, largest_toNat, List.map_map, List.foldl_eq_foldr]
  rfl

theorem high_water_above (sound : p.Sound) (skip i : Nat) (a : Allocation) (other : i ≠ skip)
    (found : p.allocation? i = some a) : a.behind ≤ (p.highWater skip).toNat := by
  have within := (sound.inside i a found).2
  have held : (i, a) ∈ p.allocations.filledExcept (some skip) :=
    (p.mem_held (some skip) (i, a)).mpr ⟨found, by simpa using Ne.symm other⟩
  rw [high_water_toNat]
  refine List.le_max_of_le (List.mem_map_of_mem held) ?_
  rw [a.stop_behind (by omega)]

theorem high_water_le (sound : p.Sound) (skip n : Nat)
    (below : ∀ i a, i ≠ skip → p.allocation? i = some a → a.behind ≤ n) : (p.highWater skip).toNat ≤ n := by
  rw [high_water_toNat]
  refine List.max_le_of_forall_le _ _ fun stop member => ?_
  obtain ⟨⟨i, a⟩, held, rfl⟩ := List.mem_map.mp member
  obtain ⟨found, other⟩ := (p.mem_held (some skip) (i, a)).mp held
  have within := (sound.inside i a found).2
  rw [a.stop_behind (by omega)]
  exact below i a (fun same => other (by rw [same])) found

theorem high_water_within (sound : p.Sound) (skip : Nat) : (p.highWater skip).toNat ≤ 32 :=
  p.high_water_le sound skip 32 fun i a _ found => (sound.inside i a found).2

theorem allocate_cases (id : Nat) (size offset : UInt8) (next : ExportPool)
    (allocated : p.allocate id size = (.ok offset, next)) :
    id < slotCount ∧
      (size = 0 ∧ next = p.release id ∨
        size ≠ 0 ∧ size ≤ capacity ∧ p.highWater id + size ≤ capacity ∧
          next = { allocations := p.allocations.setIfInBounds id (some ⟨p.highWater id, size⟩) }) := by
  unfold allocate at allocated
  by_cases outside : slotCount ≤ id
  · rw [if_pos outside] at allocated
    cases allocated
  · rw [if_neg outside] at allocated
    refine ⟨Nat.not_le.mp outside, ?_⟩
    by_cases none : size = 0
    · rw [if_pos none] at allocated
      cases allocated
      exact .inl ⟨none, rfl⟩
    · simp only [if_neg none] at allocated
      by_cases full : capacity < size ∨ capacity < p.highWater id + size
      · rw [if_pos full] at allocated
        cases allocated
      · rw [if_neg full] at allocated
        cases allocated
        obtain ⟨small, fits⟩ := not_or.mp full
        exact .inr ⟨none, UInt8.not_lt.mp small, UInt8.not_lt.mp fits, rfl⟩

theorem allocate_refused (id : Nat) (size : UInt8) (f : Fault) (refused : (p.allocate id size).1 = .error f) :
    (p.allocate id size).2 = p := by
  unfold allocate at refused ⊢
  by_cases outside : slotCount ≤ id
  · rw [if_pos outside]
  · simp only [if_neg outside] at refused ⊢
    by_cases none : size = 0
    · rw [if_pos none] at refused
      cases refused
    · simp only [if_neg none] at refused ⊢
      by_cases full : capacity < size ∨ capacity < p.highWater id + size
      · rw [if_pos full]
      · rw [if_neg full] at refused
        cases refused

theorem allocate_either (id : Nat) (size : UInt8) :
    (∃ offset next, p.allocate id size = (.ok offset, next)) ∨ ∃ f, p.allocate id size = (.error f, p) := by
  cases answered : (p.allocate id size).1 with
  | ok offset => exact .inl ⟨offset, _, Prod.ext answered rfl⟩
  | error f => exact .inr ⟨f, Prod.ext answered (p.allocate_refused id size f answered)⟩

theorem allocate_sound (id : Nat) (size offset : UInt8) (next : ExportPool) (sound : p.Sound)
    (allocated : p.allocate id size = (.ok offset, next)) : next.Sound := by
  obtain ⟨valid, ⟨_, rfl⟩ | ⟨filled, small, fits, rfl⟩⟩ := p.allocate_cases id size offset next allocated
  · exact p.sound_release sound id
  · have water := p.high_water_within sound id
    have few : size.toNat ≤ 32 := UInt8.le_iff_toNat_le.mp small
    have room : (p.highWater id + size).toNat ≤ 32 := UInt8.le_iff_toNat_le.mp fits
    rw [byte_sum _ _ (by omega)] at room
    refine p.sound_placed sound id ⟨p.highWater id, size⟩ valid ?_ room ?_
    · exact Nat.pos_of_ne_zero fun zero => filled (UInt8.toNat_inj.mp zero)
    · exact fun i a other found => p.high_water_above sound id i a other found

theorem allocate_accepts_iff (id : Nat) (size : UInt8) (sound : p.Sound) (valid : id < slotCount) :
    (∃ offset, (p.allocate id size).1 = .ok offset) ↔
      size.toNat ≤ 32 ∧ ∀ j b, j ≠ id → p.allocation? j = some b → b.behind + size.toNat ≤ 32 := by
  constructor
  · rintro ⟨offset, accepted⟩
    have allocated : p.allocate id size = (.ok offset, (p.allocate id size).2) := Prod.ext accepted rfl
    obtain ⟨_, ⟨rfl, _⟩ | ⟨_, small, fits, _⟩⟩ := p.allocate_cases id size offset _ allocated
    · exact ⟨Nat.zero_le _, fun j b _ found => (sound.inside j b found).2⟩
    · have water := p.high_water_within sound id
      have few : size.toNat ≤ 32 := UInt8.le_iff_toNat_le.mp small
      have room : (p.highWater id + size).toNat ≤ 32 := UInt8.le_iff_toNat_le.mp fits
      rw [byte_sum _ _ (by omega)] at room
      refine ⟨few, fun j b other found => ?_⟩
      have above := p.high_water_above sound id j b other found
      omega
  · rintro ⟨few, beside⟩
    have water : (p.highWater id).toNat ≤ 32 - size.toNat :=
      p.high_water_le sound id _ fun j b other found => Nat.le_sub_of_add_le (beside j b other found)
    unfold allocate
    rw [if_neg (Nat.not_le.mpr valid)]
    by_cases none : size = 0
    · exact ⟨0, by rw [if_pos none]⟩
    · have small : size ≤ capacity := UInt8.le_iff_toNat_le.mpr few
      have fits : p.highWater id + size ≤ capacity := by
        rw [UInt8.le_iff_toNat_le, byte_sum _ _ (by omega)]
        exact Nat.add_le_of_le_sub few water
      have room := not_or.mpr ⟨UInt8.not_lt.mpr small, UInt8.not_lt.mpr fits⟩
      exact ⟨p.highWater id, by simp only [if_neg none, if_neg room]⟩

end

def registers (held : List Held) : Nat := (held.map fun h => h.2.size.toNat).sum

theorem registers_cons (h : Held) (held : List Held) : registers (h :: held) = h.2.size.toNat + registers held := by
  simp only [registers, List.map_cons, List.sum_cons]

theorem registers_append (front back : List Held) : registers (front ++ back) = registers front + registers back := by
  simp only [registers, List.map_append, List.sum_append]

section
variable (p : ExportPool)

def places (i : Fin slotCount) : Finset Nat :=
  match p.allocation? i with
  | some a => Finset.Ico a.offset.toNat a.behind
  | none => ∅

theorem places_card (i : Fin slotCount) : (p.places i).card = ((p.allocation? i).map (·.size.toNat)).getD 0 := by
  unfold places
  cases p.allocation? i with
  | none => rfl
  | some a =>
    simp only [Nat.card_Ico, Allocation.behind, Option.map_some, Option.getD_some]
    omega

theorem places_apart (sound : p.Sound) (i j : Fin slotCount) (other : i ≠ j) : Disjoint (p.places i) (p.places j) := by
  unfold places
  cases first : p.allocation? i with
  | none => exact Finset.disjoint_empty_left _
  | some a =>
    cases second : p.allocation? j with
    | none => exact Finset.disjoint_empty_right _
    | some b =>
      have apart := sound.apart i j a b (fun same => other (Fin.ext same)) first second
      rw [Finset.disjoint_left]
      intro n inA inB
      simp only [Finset.mem_Ico] at inA inB
      omega

theorem places_within (sound : p.Sound) (i : Fin slotCount) : p.places i ⊆ Finset.range 32 := by
  unfold places
  cases found : p.allocation? i with
  | none => exact Finset.empty_subset _
  | some a =>
    have within := (sound.inside i a found).2
    intro n member
    simp only [Finset.mem_Ico] at member
    exact Finset.mem_range.mpr (by omega)

-- Slices that lie apart take as many places as they have registers.
theorem covered_card (sound : p.Sound) :
    (Finset.univ.biUnion p.places).card = registers (p.allocations.filledExcept none) := by
  have total := Slots.sum_filled_except p.allocations none fun a => a.size.toNat
  simp only [reduceCtorEq, if_false] at total
  calc (Finset.univ.biUnion p.places).card
      = ∑ i, (p.places i).card := Finset.card_biUnion fun i _ j _ other => p.places_apart sound i j other
    _ = ∑ i : Fin slotCount, ((p.allocation? i).map (·.size.toNat)).getD 0 :=
      Finset.sum_congr rfl fun i _ => p.places_card i
    _ = registers (p.allocations.filledExcept none) := total.symm

theorem registers_within (sound : p.Sound) : registers (p.allocations.filledExcept none) ≤ 32 := by
  calc registers (p.allocations.filledExcept none)
      = (Finset.univ.biUnion p.places).card := (p.covered_card sound).symm
    _ ≤ (Finset.range 32).card :=
      Finset.card_le_card (Finset.biUnion_subset.mpr fun i _ => p.places_within sound i)
    _ = 32 := Finset.card_range 32

theorem byte_total (held : List Held) (room : registers held < 256) :
    (held.foldr (fun (h : Held) rest => h.2.size + rest) 0).toNat = registers held := by
  induction held with
  | nil => rfl
  | cons h rest ih =>
    rw [registers_cons] at room ⊢
    have total := ih (by omega)
    rw [List.foldr_cons, byte_sum _ _ (by omega), total]

theorem used_registers (sound : p.Sound) : p.used.toNat = registers (p.allocations.filledExcept none) :=
  byte_total _ (Nat.lt_of_le_of_lt (p.registers_within sound) (by decide))

end

end ExportPool

end SoftPlc
