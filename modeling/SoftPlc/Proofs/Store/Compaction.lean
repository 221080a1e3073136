import SoftPlc.Proofs.Store.Exports

set_option autoImplicit false

namespace SoftPlc.ExportPool

theorem insert_held_ordered (h : Held) (held : List Held) :
    insertHeld h held = held.orderedInsert (fun g k => ¬ k.2.offset ≤ g.2.offset) h := by
  induction held with
  | nil => rfl
  | cons g rest ih => simp only [insertHeld, List.orderedInsert, ite_not, ih]

theorem in_order_perm (p : ExportPool) : p.inOrder.Perm (p.allocations.filledExcept none) := by
  have sorted : p.inOrder =
      (p.allocations.filledExcept none).reverse.insertionSort fun g k => ¬ k.2.offset ≤ g.2.offset := by
    simp only [inOrder, List.foldl_eq_foldr_reverse, insert_held_ordered, List.insertionSort]
  rw [sorted]
  exact (List.perm_insertionSort _ _).trans (List.reverse_perm _)

theorem move_down_allocation (owned : List Held) (offset : UInt8) (p : ExportPool)
    (distinct : (owned.map (·.1)).Nodup) (valid : ∀ h ∈ owned, h.1 < slotCount)
    (room : offset.toNat + registers owned < 256) :
    (∀ before id a later, owned = before ++ (id, a) :: later →
      ∃ start : UInt8, start.toNat = offset.toNat + registers before ∧
        (moveDown offset p owned).allocation? id = some ⟨start, a.size⟩) ∧
    ∀ i, i ∉ owned.map (·.1) → (moveDown offset p owned).allocation? i = p.allocation? i := by
  induction owned generalizing offset p with
  | nil =>
    refine ⟨?_, fun _ _ => rfl⟩
    intro before id a later split
    simp at split
  | cons h rest ih =>
    obtain ⟨id, a⟩ := h
    obtain ⟨fresh, others⟩ := List.nodup_cons.mp distinct
    have inside := valid (id, a) List.mem_cons_self
    rw [registers_cons] at room
    simp only at room fresh inside
    have next := byte_sum offset a.size (by omega)
    obtain ⟨placed, kept⟩ := ih (offset + a.size)
      { allocations := p.allocations.setIfInBounds id (some ⟨offset, a.size⟩) } others
      (fun g member => valid g (List.mem_cons_of_mem _ member)) (by omega)
    refine ⟨?_, ?_⟩
    · intro before i b later split
      rcases before with _ | ⟨g, before⟩
      · cases split
        refine ⟨offset, by simp [registers], ?_⟩
        rw [moveDown, kept id fresh, allocation_set p id id _ inside, if_pos rfl]
      · obtain ⟨rfl, rest⟩ := List.cons.inj split
        obtain ⟨start, place, found⟩ := placed before i b later rest
        refine ⟨start, ?_, found⟩
        rw [place, next, registers_cons]
        simp only
        omega
    · intro i absent
      rw [List.map_cons, List.mem_cons, not_or] at absent
      rw [moveDown, kept i absent.2, allocation_set p id i _ inside, if_neg absent.1]

section
variable (p : ExportPool)

theorem in_order_within (sound : p.Sound) : registers p.inOrder ≤ 32 := by
  have same : registers p.inOrder = registers (p.allocations.filledExcept none) := (p.in_order_perm.map _).sum_eq
  exact same ▸ p.registers_within sound

theorem mem_in_order (h : Held) : h ∈ p.inOrder ↔ p.allocation? h.1 = some h.2 := by
  rw [p.in_order_perm.mem_iff, mem_held]
  simp

theorem compact_placed (sound : p.Sound) :
    (∀ before i a later, p.inOrder = before ++ (i, a) :: later →
      ∃ start : UInt8, start.toNat = registers before ∧ p.compact.allocation? i = some ⟨start, a.size⟩) ∧
    ∀ i, p.allocation? i = none → p.compact.allocation? i = none := by
  have total := p.in_order_within sound
  have distinct : (p.inOrder.map (·.1)).Nodup :=
    (p.in_order_perm.map _).nodup_iff.mpr (Slots.filled_except_nodup p.allocations none)
  obtain ⟨placed, kept⟩ := move_down_allocation p.inOrder 0 p distinct
    (fun h member => p.allocation_valid h.1 h.2 ((p.mem_in_order h).mp member)) (by rw [UInt8.toNat_zero]; omega)
  refine ⟨fun before i a later split => ?_, fun i vacant => ?_⟩
  · obtain ⟨start, place, moved⟩ := placed before i a later split
    exact ⟨start, by simpa using place, moved⟩
  · refine (kept i fun listed => ?_).trans vacant
    obtain ⟨⟨_, a⟩, member, rfl⟩ := List.mem_map.mp listed
    cases vacant.symm.trans ((p.mem_in_order _).mp member)

theorem compact_cases (sound : p.Sound) (i : Nat) (b : Allocation) (found : p.compact.allocation? i = some b) :
    ∃ before a later, p.inOrder = before ++ (i, a) :: later ∧ p.allocation? i = some a ∧
      b.size = a.size ∧ b.offset.toNat = registers before := by
  obtain ⟨placed, vacant⟩ := p.compact_placed sound
  cases held : p.allocation? i with
  | none => cases (vacant i held).symm.trans found
  | some a =>
    obtain ⟨before, later, split⟩ := List.append_of_mem ((p.mem_in_order (i, a)).mpr held)
    obtain ⟨start, place, moved⟩ := placed before i a later split
    cases found.symm.trans moved
    exact ⟨before, a, later, split, rfl, rfl, place⟩

theorem compact_sound (sound : p.Sound) : p.compact.Sound := by
  have total := p.in_order_within sound
  refine ⟨?_, ?_⟩
  · intro i b found
    obtain ⟨before, a, later, split, held, size, offset⟩ := p.compact_cases sound i b found
    have positive := (sound.inside i a held).1
    rw [split, registers_append, registers_cons] at total
    refine ⟨size ▸ positive, ?_⟩
    rw [Allocation.behind, offset, size]
    simp only at total
    omega
  · intro i j b c other first second
    obtain ⟨before, a, later, split, _, size, offset⟩ := p.compact_cases sound i b first
    obtain ⟨before', a', later', split', _, size', offset'⟩ := p.compact_cases sound j c second
    rw [Allocation.behind, Allocation.behind, offset, offset', size, size']
    rcases List.append_eq_append_iff.mp (split.symm.trans split') with ⟨between, front, back⟩ | ⟨between, front, back⟩
    · rcases between with _ | ⟨h, between⟩
      · cases back
        exact absurd rfl other
      · cases back
        rw [front, registers_append, registers_cons]
        exact .inl (by simp only; omega)
    · rcases between with _ | ⟨h, between⟩
      · cases back
        exact absurd rfl other
      · cases back
        rw [front, registers_append, registers_cons]
        exact .inr (by simp only; omega)

theorem allocate_all_sound (programs : List (Nat × Option Bytecode)) (sound : p.Sound) :
    (p.allocateAll programs).1.Sound := by
  induction programs generalizing p with
  | nil => exact sound
  | cons entry rest ih =>
    obtain ⟨id, none | b⟩ := entry
    · exact ih p sound
    · obtain ⟨offset, next, allocated⟩ | ⟨f, refused⟩ := p.allocate_either id b.exportSize
      · simp only [allocateAll, allocated]
        exact ih next (p.allocate_sound id _ offset next sound allocated)
      · simp only [allocateAll, refused]
        exact ih p sound

end

theorem lay_out_sound (programs : List (Option Bytecode)) : (layOut programs).1.Sound :=
  allocate_all_sound {} _ sound_empty

def Sized (p : ExportPool) (program : Nat → Option Bytecode) : Prop :=
  ∀ i a, p.allocation? i = some a → ∃ b, program i = some b ∧ a.size = b.exportSize

section
variable (p : ExportPool) (program : Nat → Option Bytecode)

theorem sized_empty : Sized {} program := by
  intro i a found
  cases (allocation_empty i).symm.trans found

theorem sized_release (sized : p.Sized program) (id : Nat) : (p.release id).Sized program := by
  intro i a found
  rw [allocation_release] at found
  by_cases gone : i = id
  · rw [if_pos gone] at found
    cases found
  · rw [if_neg gone] at found
    exact sized i a found

theorem sized_allocate (sized : p.Sized program) (id : Nat) (b : Bytecode) (offset : UInt8) (next : ExportPool)
    (compiled : program id = some b) (allocated : p.allocate id b.exportSize = (.ok offset, next)) :
    next.Sized program := by
  obtain ⟨valid, ⟨_, rfl⟩ | ⟨_, _, _, rfl⟩⟩ := p.allocate_cases id _ offset next allocated
  · exact p.sized_release program sized id
  · intro i a found
    rw [allocation_set p id i _ valid] at found
    by_cases here : i = id
    · rw [if_pos here] at found
      cases found
      exact ⟨b, here ▸ compiled, rfl⟩
    · rw [if_neg here] at found
      exact sized i a found

theorem sized_compact (sound : p.Sound) (sized : p.Sized program) : p.compact.Sized program := by
  intro i b found
  obtain ⟨_, a, _, _, held, size, _⟩ := p.compact_cases sound i b found
  obtain ⟨bytecode, compiled, same⟩ := sized i a held
  exact ⟨bytecode, compiled, size.trans same⟩

theorem sized_allocate_all (programs : List (Nat × Option Bytecode)) (sized : p.Sized program)
    (known : ∀ entry ∈ programs, ∀ b, entry.2 = some b → program entry.1 = some b) :
    (p.allocateAll programs).1.Sized program := by
  induction programs generalizing p with
  | nil => exact sized
  | cons entry rest ih =>
    have others : ∀ e ∈ rest, ∀ b, e.2 = some b → program e.1 = some b :=
      fun e member => known e (List.mem_cons_of_mem entry member)
    obtain ⟨id, none | b⟩ := entry
    · exact ih p sized others
    · have compiled := known (id, some b) List.mem_cons_self b rfl
      obtain ⟨offset, next, allocated⟩ | ⟨f, refused⟩ := p.allocate_either id b.exportSize
      · simp only [allocateAll, allocated]
        exact ih next (p.sized_allocate program sized id b offset next compiled allocated) others
      · simp only [allocateAll, refused]
        exact ih p sized others

end

theorem sized_lay_out (programs : List (Option Bytecode)) (program : Nat → Option Bytecode)
    (known : ∀ i b, programs[i]? = some (some b) → program i = some b) : (layOut programs).1.Sized program := by
  refine sized_allocate_all {} program _ (sized_empty program) fun entry member b compiled => ?_
  obtain ⟨⟨b', i⟩, numbered, same⟩ := List.mem_map.mp member
  cases same
  cases compiled
  have here := List.mem_zipIdx_iff_getElem?.mp numbered
  rw [List.getElem?_take] at here
  split at here
  · exact known i b here
  · cases here

end SoftPlc.ExportPool
