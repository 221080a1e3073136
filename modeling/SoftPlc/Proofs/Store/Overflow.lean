import SoftPlc.Proofs.Store.Compaction

/-!
The arithmetic of the export pool. Each operation is written once more with sums and differences
that have no value where a byte cannot hold them; in every pool that requests lead to, both give
the same, so no byte ever wraps.
-/
set_option autoImplicit false

namespace SoftPlc

namespace Allocation

def exactSum? (m n : UInt8) : Option UInt8 := if m.toNat + n.toNat < 256 then some (m + n) else none

def exactDifference? (m n : UInt8) : Option UInt8 := if n.toNat ≤ m.toNat then some (m - n) else none

def exactStop? (a : Allocation) : Option UInt8 := exactSum? a.offset a.size

theorem exact_sum (m n : UInt8) (small : m.toNat + n.toNat < 256) : exactSum? m n = some (m + n) := if_pos small

theorem exact_difference (m n : UInt8) (less : n.toNat ≤ m.toNat) : exactDifference? m n = some (m - n) := if_pos less

end Allocation

namespace ExportPool

open Allocation

def exactHighWater? (p : ExportPool) (skip : Nat) : Option UInt8 :=
  (p.allocations.filledExcept (some skip)).foldlM (fun water h => do return max water (← h.2.exactStop?)) 0

def exactUsed? (p : ExportPool) : Option UInt8 :=
  (p.allocations.filledExcept none).foldlM (fun total h => exactSum? total h.2.size) 0

def exactFree? (p : ExportPool) : Option UInt8 := do exactDifference? capacity (← p.exactUsed?)

def exactExceeds? (offset size : UInt8) : Option Bool :=
  if capacity < size then some true else (exactSum? offset size).map (capacity < ·)

def exactAllocate? (p : ExportPool) (id : Nat) (size : UInt8) : Option (Answer ExportPool UInt8) :=
  if slotCount ≤ id then some (.error (.invalidId id), p)
  else if size = 0 then some (.ok 0, p.release id)
  else do
    let offset ← p.exactHighWater? id
    if ← exactExceeds? offset size then
      let left ← exactDifference? capacity offset
      return (.error (.because .poolExhausted ("NEED " ++ toString size.toNat ++ " REGISTERS, " ++
        toString left.toNat ++ " FREE")), p)
    else return (.ok offset, { allocations := p.allocations.setIfInBounds id (some ⟨offset, size⟩) })

def exactMoveDown? (offset : UInt8) (p : ExportPool) : List Held → Option ExportPool
  | [] => some p
  | (id, a) :: rest => do
    let next ← exactSum? offset a.size
    exactMoveDown? next { allocations := p.allocations.setIfInBounds id (some ⟨offset, a.size⟩) } rest

def exactCompact? (p : ExportPool) : Option ExportPool := exactMoveDown? 0 p p.inOrder

def exactAllocateAll? (p : ExportPool) :
    List (Nat × Option Bytecode) → Option (ExportPool × List (Nat × Fault))
  | [] => some (p, [])
  | (_, none) :: rest => exactAllocateAll? p rest
  | (id, some b) :: rest => do
    match ← p.exactAllocate? id b.exportSize with
    | (.ok _, p) => exactAllocateAll? p rest
    | (.error f, p) =>
      let (p, failures) ← exactAllocateAll? p rest
      return (p, (id, f) :: failures)

def exactLayOut? (programs : List (Option Bytecode)) : Option (ExportPool × List (Nat × Fault)) :=
  exactAllocateAll? {} ((programs.take slotCount).zipIdx.map fun (b, i) => (i, b))

theorem exact_exceeds (offset size : UInt8) (within : offset.toNat ≤ 32) :
    exactExceeds? offset size = some (decide (capacity < size ∨ capacity < offset + size)) := by
  unfold exactExceeds?
  by_cases large : capacity < size
  · rw [if_pos large, decide_eq_true (Or.inl large)]
  · have few : size.toNat ≤ 32 := UInt8.le_iff_toNat_le.mp (UInt8.not_lt.mp large)
    rw [if_neg large, exact_sum offset size (by omega), Option.map_some]
    simp only [large, false_or]

section
variable (p : ExportPool) (sound : p.Sound)
include sound

theorem exact_stop (i : Nat) (a : Allocation) (found : p.allocation? i = some a) : a.exactStop? = some a.stop := by
  have within := (sound.inside i a found).2
  unfold Allocation.behind at within
  exact exact_sum a.offset a.size (by omega)

theorem exact_high_water (skip : Nat) : p.exactHighWater? skip = some (p.highWater skip) := by
  have each : ∀ h ∈ p.allocations.filledExcept (some skip), h.2.exactStop? = some h.2.stop :=
    fun h member => p.exact_stop sound h.1 h.2 ((p.mem_held (some skip) h).mp member).1
  have from_water (held : List Held) (water : UInt8) (stops : ∀ h ∈ held, h.2.exactStop? = some h.2.stop) :
      held.foldlM (fun water h => do return max water (← h.2.exactStop?)) water =
        some ((held.map (·.2.stop)).foldl max water) := by
    induction held generalizing water with
    | nil => rfl
    | cons h rest ih =>
      simp only [List.foldlM_cons, stops h List.mem_cons_self, Option.bind_eq_bind, Option.bind_some, Option.pure_def,
        List.map_cons, List.foldl_cons]
      exact ih _ fun g member => stops g (List.mem_cons_of_mem h member)
  exact from_water _ 0 each

theorem exact_used : p.exactUsed? = some p.used ∧ p.used.toNat ≤ 32 := by
  have within := p.registers_within sound
  have from_start (held : List Held) (start : UInt8) (room : start.toNat + registers held < 256) :
      held.foldlM (fun total h => exactSum? total h.2.size) start =
        some (start + held.foldr (fun owned rest => owned.2.size + rest) 0) := by
    induction held generalizing start with
    | nil => simp
    | cons h rest ih =>
      rw [registers_cons] at room
      have next := byte_sum start h.2.size (by omega)
      rw [List.foldlM_cons, exact_sum _ _ (by omega), List.foldr_cons, ← UInt8.add_assoc]
      exact ih (start + h.2.size) (by omega)
  have sum := from_start (p.allocations.filledExcept none) 0 (by rw [UInt8.toNat_zero]; omega)
  rw [UInt8.zero_add] at sum
  exact ⟨sum, (p.used_registers sound).le.trans within⟩

theorem exact_free : p.exactFree? = some p.free := by
  obtain ⟨sum, within⟩ := p.exact_used sound
  simp only [exactFree?, sum, Option.bind_eq_bind, Option.bind_some]
  exact exact_difference capacity p.used within

theorem exact_allocate (id : Nat) (size : UInt8) : p.exactAllocate? id size = some (p.allocate id size) := by
  have water := p.high_water_within sound id
  have left : exactDifference? capacity (p.highWater id) = some (capacity - p.highWater id) :=
    exact_difference capacity _ water
  unfold exactAllocate? allocate
  by_cases outside : slotCount ≤ id
  · rw [if_pos outside, if_pos outside]
  · rw [if_neg outside, if_neg outside]
    by_cases none : size = 0
    · rw [if_pos none, if_pos none]
    · simp only [if_neg none, p.exact_high_water sound id, left, exact_exceeds _ _ water, Option.bind_eq_bind,
        Option.bind_some, Option.pure_def, decide_eq_true_eq]
      split
      · rfl
      · rfl

end

theorem exact_move_down (owned : List Held) (offset : UInt8) (p : ExportPool)
    (room : offset.toNat + registers owned < 256) : exactMoveDown? offset p owned = some (moveDown offset p owned) := by
  induction owned generalizing offset p with
  | nil => rfl
  | cons h rest ih =>
    obtain ⟨id, a⟩ := h
    rw [registers_cons] at room
    simp only at room
    have next := byte_sum offset a.size (by omega)
    rw [exactMoveDown?, exact_sum _ _ (by omega), moveDown]
    exact ih _ _ (by omega)

theorem exact_compact (p : ExportPool) (sound : p.Sound) : p.exactCompact? = some p.compact := by
  have within := p.in_order_within sound
  exact exact_move_down p.inOrder 0 p (by rw [UInt8.toNat_zero]; omega)

theorem exact_allocate_all (p : ExportPool) (programs : List (Nat × Option Bytecode)) (sound : p.Sound) :
    p.exactAllocateAll? programs = some (p.allocateAll programs) := by
  induction programs generalizing p with
  | nil => rfl
  | cons entry rest ih =>
    obtain ⟨id, none | b⟩ := entry
    · exact ih p sound
    · have exact := p.exact_allocate sound id b.exportSize
      obtain ⟨offset, next, allocated⟩ | ⟨f, refused⟩ := p.allocate_either id b.exportSize
      · simp only [exactAllocateAll?, allocateAll, exact, allocated, Option.bind_eq_bind, Option.bind_some]
        exact ih next (p.allocate_sound id _ offset next sound allocated)
      · simp only [exactAllocateAll?, allocateAll, exact, refused, Option.bind_eq_bind, Option.bind_some,
          ih p sound, Option.pure_def]

theorem exact_lay_out (programs : List (Option Bytecode)) : exactLayOut? programs = some (layOut programs) :=
  exact_allocate_all {} _ sound_empty

inductive Request where
  | allocate (id : Nat) (size : UInt8)
  | release (id : Nat)
  | compact
  | layOut (programs : List (Option Bytecode))

def after (p : ExportPool) : Request → ExportPool
  | .allocate id size => (p.allocate id size).2
  | .release id => p.release id
  | .compact => p.compact
  | .layOut programs => (layOut programs).1

def history (requests : List Request) : ExportPool := requests.foldl after {}

theorem after_sound (p : ExportPool) (request : Request) (sound : p.Sound) : (p.after request).Sound := by
  cases request with
  | allocate id size =>
    obtain ⟨offset, next, allocated⟩ | ⟨f, refused⟩ := p.allocate_either id size
    · rw [after, allocated]
      exact p.allocate_sound id size offset next sound allocated
    · rw [after, refused]
      exact sound
  | release id => exact p.sound_release sound id
  | compact => exact p.compact_sound sound
  | layOut programs => exact lay_out_sound programs

theorem history_sound (requests : List Request) : (history requests).Sound := by
  unfold history
  exact List.foldlRecOn requests after sound_empty fun p sound request _ => p.after_sound request sound

-- In every pool that requests lead to the slices lie apart in the 32 registers and take no more of
-- them than there are, and no operation goes over what a byte holds. An allocation is accepted
-- exactly where it fits behind the other slices; one that is refused leaves the pool as it was.
theorem history_is_safe (requests : List Request) :
    let p := history requests
    (∀ i j a b, i ≠ j → p.allocation? i = some a → p.allocation? j = some b →
      a.offset.toNat + a.size.toNat ≤ b.offset.toNat ∨ b.offset.toNat + b.size.toNat ≤ a.offset.toNat) ∧
      (∀ i a, p.allocation? i = some a → a.offset.toNat + a.size.toNat ≤ 32) ∧
      (∑ i : Fin slotCount, ((p.allocation? i).map (·.size.toNat)).getD 0) ≤ 32 ∧
      (∀ i a, p.allocation? i = some a → a.exactStop? = some a.stop) ∧
      p.exactUsed? = some p.used ∧ p.exactFree? = some p.free ∧ p.exactCompact? = some p.compact ∧
      (∀ id size, p.exactAllocate? id size = some (p.allocate id size)) ∧
      (∀ programs, exactLayOut? programs = some (layOut programs)) ∧
      (∀ id size, id < slotCount → ((∃ offset, (p.allocate id size).1 = .ok offset) ↔ size.toNat ≤ 32 ∧
        ∀ j b, j ≠ id → p.allocation? j = some b → b.offset.toNat + b.size.toNat + size.toNat ≤ 32)) ∧
      (∀ id size f, (p.allocate id size).1 = .error f → history (requests ++ [.allocate id size]) = p) := by
  intro p
  have sound : p.Sound := history_sound requests
  have total := Slots.sum_filled_except p.allocations none fun a => a.size.toNat
  simp only [reduceCtorEq, if_false] at total
  refine ⟨sound.apart, fun i a found => (sound.inside i a found).2, ?_, p.exact_stop sound, (p.exact_used sound).1,
    p.exact_free sound, p.exact_compact sound, p.exact_allocate sound, exact_lay_out,
    fun id size valid => p.allocate_accepts_iff id size sound valid, ?_⟩
  · exact total ▸ p.registers_within sound
  · intro id size f refused
    rw [history, List.foldl_append, List.foldl_cons, List.foldl_nil]
    exact p.allocate_refused id size f refused

end ExportPool

end SoftPlc
