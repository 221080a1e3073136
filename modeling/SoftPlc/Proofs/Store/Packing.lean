import SoftPlc.Proofs.Store.Overflow
import SoftPlc.Proofs.Store.Publishing

set_option autoImplicit false

namespace SoftPlc.ExportPool

def Rising (held : List Held) : Prop := held.Pairwise fun g h => g.2.offset ≤ h.2.offset

theorem mem_insert_held (h k : Held) (held : List Held) : k ∈ insertHeld h held ↔ k = h ∨ k ∈ held := by
  rw [insert_held_ordered, List.mem_orderedInsert]

theorem insert_held_rising (h : Held) (held : List Held) (rising : Rising held) : Rising (insertHeld h held) := by
  induction held with
  | nil => exact List.pairwise_singleton _ h
  | cons g rest ih =>
    obtain ⟨first, later⟩ := List.pairwise_cons.mp rising
    rw [insertHeld]
    by_cases before : g.2.offset ≤ h.2.offset
    · rw [if_pos before]
      refine List.pairwise_cons.mpr ⟨fun k member => ?_, ih later⟩
      rcases (mem_insert_held h k rest).mp member with rfl | old
      · exact before
      · exact first k old
    · rw [if_neg before]
      have less : h.2.offset ≤ g.2.offset := (UInt8.le_total _ _).resolve_left before
      refine List.pairwise_cons.mpr ⟨fun k member => ?_, rising⟩
      rcases List.mem_cons.mp member with rfl | old
      · exact less
      · exact UInt8.le_trans less (first k old)

theorem in_order_rising (p : ExportPool) : Rising p.inOrder :=
  List.foldlRecOn _ _ List.Pairwise.nil fun sorted rising h _ => insert_held_rising h sorted rising

theorem mem_places (p : ExportPool) (i : Fin slotCount) (n : Nat) :
    n ∈ p.places i ↔ ∃ a, p.allocation? i = some a ∧ a.offset.toNat ≤ n ∧ n < a.behind := by
  unfold places
  cases p.allocation? i <;> simp

section
variable (p : ExportPool) (sound : p.Sound)
include sound

theorem compact_rises (i j : Nat) (a b : Allocation) (first : p.allocation? i = some a)
    (second : p.allocation? j = some b) (less : a.offset < b.offset) :
    ∃ a' b', p.compact.allocation? i = some a' ∧ p.compact.allocation? j = some b' ∧
      a'.offset.toNat < b'.offset.toNat := by
  obtain ⟨placed, _⟩ := p.compact_placed sound
  obtain ⟨before, later, split⟩ := List.append_of_mem ((p.mem_in_order (i, a)).mpr first)
  have member := (p.mem_in_order (j, b)).mpr second
  have rising := p.in_order_rising
  rw [split] at member rising
  have behind : (j, b) ∈ later := by
    rcases List.mem_append.mp member with front | back
    · have above := (List.pairwise_append.mp rising).2.2 (j, b) front (i, a) List.mem_cons_self
      exact absurd less (UInt8.not_lt.mpr above)
    · rcases List.mem_cons.mp back with same | behind
      · cases same
        exact absurd less (UInt8.lt_irrefl _)
      · exact behind
  obtain ⟨between, last, rest⟩ := List.append_of_mem behind
  obtain ⟨start, place, moved⟩ := placed before i a later split
  obtain ⟨start', place', moved'⟩ := placed (before ++ (i, a) :: between) j b last (by
    rw [split, rest, List.append_assoc, List.cons_append])
  have positive := (sound.inside i a first).1
  refine ⟨_, _, moved, moved', ?_⟩
  simp only [place, place', registers_append, registers_cons]
  omega

theorem compact_keeps_order (i j : Nat) (a b a' b' : Allocation) (first : p.allocation? i = some a)
    (second : p.allocation? j = some b) (moved : p.compact.allocation? i = some a')
    (moved' : p.compact.allocation? j = some b') : a.offset < b.offset ↔ a'.offset < b'.offset := by
  constructor
  · intro less
    obtain ⟨x, y, found, found', rises⟩ := p.compact_rises sound i j a b first second less
    cases moved.symm.trans found
    cases moved'.symm.trans found'
    exact UInt8.lt_iff_toNat_lt.mpr rises
  · intro less
    by_contra other
    by_cases same : i = j
    · subst same
      cases moved.symm.trans moved'
      exact UInt8.lt_irrefl _ less
    · have inside := (sound.inside i a first).1
      have inside' := (sound.inside j b second).1
      have apart := sound.apart i j a b same first second
      have above : b.offset < a.offset := by
        rw [UInt8.lt_iff_toNat_lt] at other ⊢
        unfold Allocation.behind at apart
        omega
      obtain ⟨y, x, found', found, rises⟩ := p.compact_rises sound j i b a second first above
      cases moved.symm.trans found
      cases moved'.symm.trans found'
      exact absurd (UInt8.lt_iff_toNat_lt.mpr rises) (UInt8.not_lt.mpr (UInt8.le_of_lt less))

theorem compact_keeps_sizes (i : Nat) : (p.compact.allocation? i).map (·.size) = (p.allocation? i).map (·.size) := by
  obtain ⟨placed, vacant⟩ := p.compact_placed sound
  cases held : p.allocation? i with
  | none => rw [vacant i held]
  | some a =>
    obtain ⟨before, later, split⟩ := List.append_of_mem ((p.mem_in_order (i, a)).mpr held)
    obtain ⟨start, _, moved⟩ := placed before i a later split
    rw [moved]
    rfl

theorem compact_used : p.compact.used = p.used := by
  have total (q : ExportPool) := Slots.sum_filled_except q.allocations none fun a => a.size.toNat
  simp only [reduceCtorEq, if_false] at total
  have sizes (i : Nat) : (p.compact.allocation? i).map (·.size.toNat) = (p.allocation? i).map (·.size.toNat) := by
    have same := congrArg (Option.map UInt8.toNat) (p.compact_keeps_sizes sound i)
    rwa [Option.map_map, Option.map_map] at same
  rw [← UInt8.toNat_inj, p.compact.used_registers (p.compact_sound sound), p.used_registers sound]
  calc registers (p.compact.allocations.filledExcept none)
      = ∑ i : Fin slotCount, ((p.compact.allocation? i).map (·.size.toNat)).getD 0 := total p.compact
    _ = ∑ i : Fin slotCount, ((p.allocation? i).map (·.size.toNat)).getD 0 :=
      Finset.sum_congr rfl fun i _ => congrArg (Option.getD · 0) (sizes i)
    _ = registers (p.allocations.filledExcept none) := (total p).symm

-- No slice reaches behind the registers that are used, and there are as many places as that: all of them
-- are taken.
theorem compact_covers : Finset.univ.biUnion p.compact.places = Finset.range p.used.toNat := by
  have moved := p.compact_sound sound
  refine Finset.eq_of_subset_of_card_le (Finset.biUnion_subset.mpr fun i _ n member => ?_) ?_
  · obtain ⟨b, found, _, before⟩ := (p.compact.mem_places i n).mp member
    obtain ⟨front, a, later, split, _, size, offset⟩ := p.compact_cases sound i b found
    have total : p.used.toNat = registers p.inOrder :=
      (p.used_registers sound).trans (p.in_order_perm.map _).sum_eq.symm
    rw [split, registers_append, registers_cons] at total
    rw [Allocation.behind, offset, size] at before
    simp only at total
    exact Finset.mem_range.mpr (by omega)
  · rw [p.compact.covered_card moved, ← p.compact.used_registers moved, p.compact_used sound, Finset.card_range]

theorem free_toNat : p.free.toNat = 32 - p.used.toNat := by
  have within := (p.exact_used sound).2
  exact UInt8.toNat_sub_of_le capacity p.used (UInt8.le_iff_toNat_le.mpr within)

theorem allocate_compacted_iff (id : Nat) (size : UInt8) (valid : id < slotCount)
    (vacant : p.compact.allocation? id = none) :
    (∃ offset, (p.compact.allocate id size).1 = .ok offset) ↔ size ≤ p.compact.free := by
  have moved := p.compact_sound sound
  have within := (p.exact_used sound).2
  have covers (n : Nat) : (∃ i, n ∈ p.compact.places i) ↔ n < p.used.toNat := by
    rw [← Finset.mem_range, ← p.compact_covers sound]
    simp
  rw [p.compact.allocate_accepts_iff id size moved valid, UInt8.le_iff_toNat_le, p.compact.free_toNat moved,
    p.compact_used sound]
  constructor
  · rintro ⟨few, beside⟩
    by_cases none : p.used.toNat = 0
    · omega
    · obtain ⟨j, member⟩ := (covers (p.used.toNat - 1)).mpr (by omega)
      obtain ⟨b, found, _, last⟩ := (p.compact.mem_places j _).mp member
      have other : j.val ≠ id := by
        rintro rfl
        cases vacant.symm.trans found
      have room := beside j b other found
      omega
  · intro room
    refine ⟨by omega, fun j b _ found => ?_⟩
    have positive := (moved.inside j b found).1
    have last : b.behind - 1 ∈ p.compact.places ⟨j, p.compact.allocation_valid j b found⟩ := by
      rw [mem_places]
      refine ⟨b, found, ?_⟩
      unfold Allocation.behind
      omega
    have below := (covers (b.behind - 1)).mp ⟨_, last⟩
    unfold Allocation.behind at below ⊢
    omega

end

def numberedFrom (first : Nat) (programs : List (Option Bytecode)) : List (Nat × Option Bytecode) :=
  (programs.zipIdx first).map fun (b, i) => (i, b)

def asked (program : Option Bytecode) : Nat := (program.map (·.exportSize.toNat)).getD 0

-- The slices of the programs in front of one stand without a gap: they reach as far as the registers
-- that they have together.
structure Packed (p : ExportPool) (first total : Nat) : Prop where
  sound : p.Sound
  filled : ∀ j a, p.allocation? j = some a → j < first ∧ a.behind ≤ total
  tight : total = 0 ∨ ∃ j a, p.allocation? j = some a ∧ a.behind = total

theorem packed_empty : Packed {} 0 0 := by
  refine ⟨sound_empty, fun j a found => ?_, .inl rfl⟩
  cases (allocation_empty j).symm.trans found

section
variable (p : ExportPool) (first total : Nat) (packed : p.Packed first total)
include packed

theorem packed_within : total ≤ 32 := by
  rcases packed.tight with none | ⟨j, a, found, last⟩
  · omega
  · exact last ▸ (packed.sound.inside j a found).2

theorem packed_water : (p.highWater first).toNat = total := by
  refine Nat.le_antisymm ?_ ?_
  · exact p.high_water_le packed.sound first total fun i a _ found => (packed.filled i a found).2
  · rcases packed.tight with none | ⟨j, a, found, last⟩
    · omega
    · have before := (packed.filled j a found).1
      exact last ▸ p.high_water_above packed.sound first j a (by omega) found

theorem packed_skip : p.Packed (first + 1) total :=
  ⟨packed.sound, fun j a found => ⟨Nat.lt_succ_of_lt (packed.filled j a found).1, (packed.filled j a found).2⟩,
    packed.tight⟩

theorem packed_accepts_iff (size : UInt8) (valid : first < slotCount) :
    (∃ offset, (p.allocate first size).1 = .ok offset) ↔ total + size.toNat ≤ 32 := by
  rw [p.allocate_accepts_iff first size packed.sound valid]
  constructor
  · rintro ⟨few, beside⟩
    rcases packed.tight with none | ⟨j, a, found, last⟩
    · omega
    · have before := (packed.filled j a found).1
      exact last ▸ beside j a (by omega) found
  · intro room
    refine ⟨by omega, fun j b _ found => ?_⟩
    have below := (packed.filled j b found).2
    omega

theorem packed_next (size offset : UInt8) (next : ExportPool) (allocated : p.allocate first size = (.ok offset, next)) :
    next.Packed (first + 1) (total + size.toNat) ∧ (∀ j, j ≠ first → next.allocation? j = p.allocation? j) ∧
      (size ≠ 0 → next.allocation? first = some ⟨p.highWater first, size⟩) := by
  have sound := p.allocate_sound first size offset next packed.sound allocated
  have water := p.packed_water first total packed
  have within := p.packed_within first total packed
  obtain ⟨valid, ⟨rfl, rfl⟩ | ⟨filled, small, _, rfl⟩⟩ := p.allocate_cases first size offset next allocated
  · have same (j : Nat) : (p.release first).allocation? j = p.allocation? j := by
      rw [allocation_release]
      by_cases here : j = first
      · rw [if_pos here]
        cases found : p.allocation? j with
        | none => rfl
        | some a => exact absurd (packed.filled j a found).1 (by omega)
      · rw [if_neg here]
    have later := p.packed_skip first total packed
    refine ⟨⟨sound, fun j a found => ?_, ?_⟩, fun j _ => same j, fun positive => absurd rfl positive⟩
    · exact later.filled j a (same j ▸ found)
    · simpa only [same, UInt8.toNat_zero, Nat.add_zero] using later.tight
  · have few : size.toNat ≤ 32 := UInt8.le_iff_toNat_le.mp small
    have placed (j : Nat) := p.allocation_set first j (some ⟨p.highWater first, size⟩) valid
    have last : Allocation.behind ⟨p.highWater first, size⟩ = total + size.toNat := by rw [Allocation.behind, water]
    refine ⟨⟨sound, fun j a found => ?_, .inr ⟨first, _, (placed first).trans (if_pos rfl), last⟩⟩, fun j other => ?_,
      fun _ => (placed first).trans (if_pos rfl)⟩
    · rw [placed] at found
      by_cases here : j = first
      · rw [if_pos here] at found
        cases found
        exact ⟨by omega, last.le⟩
      · rw [if_neg here] at found
        have before := packed.filled j a found
        omega
    · rw [placed, if_neg other]

end

def Follow (p : ExportPool) (first total : Nat) (programs : List (Option Bytecode)) : Prop :=
  ∀ before b later, programs = before ++ some b :: later → b.exportSize ≠ 0 →
    ∃ start : UInt8, start.toNat = total + (before.map asked).sum ∧
      p.allocation? (first + before.length) = some ⟨start, b.exportSize⟩

theorem follow_nil (p : ExportPool) (first total : Nat) : p.Follow first total [] := by
  intro before b later split
  simp at split

theorem follow_cons (p : ExportPool) (first total : Nat) (program : Option Bytecode) (rest : List (Option Bytecode))
    (others : p.Follow (first + 1) (total + asked program) rest)
    (own : ∀ b, program = some b → b.exportSize ≠ 0 →
      ∃ start : UInt8, start.toNat = total ∧ p.allocation? first = some ⟨start, b.exportSize⟩) :
    p.Follow first total (program :: rest) := by
  intro before b later split filled
  rcases before with _ | ⟨g, before⟩
  · obtain ⟨rfl, rfl⟩ := List.cons.inj split
    exact own b rfl filled
  · obtain ⟨rfl, rest⟩ := List.cons.inj split
    obtain ⟨start, place, found⟩ := others before b later rest filled
    rw [List.map_cons, List.sum_cons, ← Nat.add_assoc, List.length_cons, ← Nat.add_assoc, Nat.add_right_comm first]
    exact ⟨start, place, found⟩

-- Of the programs laid out behind those that are packed, none is refused if and only if there is room for
-- all, and then they follow each other.
theorem allocate_all_packed (programs : List (Option Bytecode)) (p : ExportPool) (first total : Nat)
    (packed : p.Packed first total) (valid : first + programs.length ≤ slotCount) :
    ((p.allocateAll (numberedFrom first programs)).2 = [] ↔ total + (programs.map asked).sum ≤ 32) ∧
    (total + (programs.map asked).sum ≤ 32 →
      (p.allocateAll (numberedFrom first programs)).1.Follow first total programs) ∧
    ∀ j, j < first → (p.allocateAll (numberedFrom first programs)).1.allocation? j = p.allocation? j := by
  induction programs generalizing p first total with
  | nil =>
    have within := p.packed_within first total packed
    exact ⟨by simpa [numberedFrom, allocateAll] using within, fun _ => follow_nil _ first total, fun _ _ => rfl⟩
  | cons program rest ih =>
    rw [List.length_cons] at valid
    have numbered : numberedFrom first (program :: rest) = (first, program) :: numberedFrom (first + 1) rest := rfl
    rw [numbered, List.map_cons, List.sum_cons, ← Nat.add_assoc]
    cases program with
    | none =>
      obtain ⟨refused, placed, kept⟩ := ih p (first + 1) total (p.packed_skip first total packed) (by omega)
      rw [allocateAll]
      refine ⟨refused, fun room => ?_, fun j less => kept j (by omega)⟩
      exact follow_cons _ first total none rest (placed room) fun b own => by cases own
    | some made =>
      have size : asked (some made) = made.exportSize.toNat := rfl
      have accepts := p.packed_accepts_iff first total packed made.exportSize (by omega)
      obtain ⟨offset, next, allocated⟩ | ⟨f, denied⟩ := p.allocate_either first made.exportSize
      · obtain ⟨after, others, here⟩ := p.packed_next first total packed made.exportSize offset next allocated
        obtain ⟨refused, placed, kept⟩ := ih next (first + 1) (total + made.exportSize.toNat) after (by omega)
        simp only [allocateAll, allocated]
        refine ⟨refused, fun room => ?_, fun j less => (kept j (by omega)).trans (others j (by omega))⟩
        refine follow_cons _ first total (some made) rest (placed room) fun b own filled => ?_
        cases own
        exact ⟨p.highWater first, p.packed_water first total packed,
          (kept first (Nat.lt_succ_self first)).trans (here filled)⟩
      · have full : ¬ total + made.exportSize.toNat ≤ 32 := fun room => by
          obtain ⟨offset, accepted⟩ := accepts.mpr room
          rw [denied] at accepted
          cases accepted
        obtain ⟨_, _, kept⟩ := ih p (first + 1) total (p.packed_skip first total packed) (by omega)
        simp only [allocateAll, denied]
        refine ⟨⟨fun none => absurd none (List.cons_ne_nil _ _), fun room => absurd room (by omega)⟩,
          fun room => absurd room (by omega), fun j less => kept j (by omega)⟩

def exported (program : Option Bytecode) : Nat := (program.map (widths ·.exports)).getD 0

section
variable (programs : Slots (Option Bytecode))
  (few : ∀ i b, programs.get i = some b → b.vars.length ≤ Bytecode.maxVariables)
include few

theorem asked_exported (i : Fin slotCount) : asked (programs.get i) = exported (programs.get i) := by
  cases program : programs.get i with
  | none => rfl
  | some b => exact export_size_widths b (few i b program)

theorem asked_total : (programs.toList.map asked).sum = ∑ i, exported (programs.get i) := by
  rw [Slots.to_list_of_fn, List.map_ofFn, List.sum_ofFn]
  exact Finset.sum_congr rfl fun i _ => asked_exported programs few i

theorem asked_in_front (i : Fin slotCount) :
    ((programs.toList.take i).map asked).sum = ∑ j with j < i, exported (programs.get j) := by
  rw [Slots.to_list_of_fn, List.map_take, List.map_ofFn, List.sum_take_ofFn]
  exact Finset.sum_congr rfl fun j _ => asked_exported programs few j

theorem lay_out_packed :
    ((layOut programs.toList).2 = [] ↔ ∑ i, exported (programs.get i) ≤ 32) ∧
    (∑ i, exported (programs.get i) ≤ 32 → ∀ i b, programs.get i = some b → b.exports ≠ [] →
      ∃ a, (layOut programs.toList).1.allocation? i = some a ∧
        a.offset.toNat = ∑ j with j < i, exported (programs.get j) ∧ a.size.toNat = widths b.exports) := by
  have whole : layOut programs.toList = allocateAll {} (numberedFrom 0 programs.toList) := by
    rw [layOut, List.take_of_length_le (by simp)]
    rfl
  obtain ⟨refused, placed, _⟩ := allocate_all_packed programs.toList {} 0 0 packed_empty (by simp)
  rw [Nat.zero_add, asked_total programs few] at refused placed
  rw [whole]
  refine ⟨refused, fun room i b program nonempty => ?_⟩
  have size := export_size_widths b (few i b program)
  have filled : b.exportSize ≠ 0 := by
    intro none
    rw [none, UInt8.toNat_zero] at size
    exact nonempty (widths_zero b.exports size.symm)
  have split : programs.toList = programs.toList.take i ++ some b :: programs.toList.drop (i + 1) := by
    have inside : i.val < programs.toList.length := by simp
    have here : programs.toList[i.val] = some b := by simpa [Vector.get] using program
    rw [← here, List.getElem_cons_drop, List.take_append_drop]
  obtain ⟨start, place, found⟩ := placed room _ b _ split filled
  rw [Nat.zero_add, List.length_take, Vector.length_toList, Nat.min_eq_left (Nat.le_of_lt i.isLt)] at found
  refine ⟨_, found, ?_, size⟩
  rw [place, Nat.zero_add, asked_in_front programs few i]

end

-- In every pool that requests lead to, moving the slices together keeps the size of each and the order of
-- all, and they then take up the first registers without a gap; a program without a slice is given as many
-- registers as it asks for if and only if as many are free. Programs that are laid out anew are all given
-- registers if and only if they have no more than there are, and each then has its own behind those of all
-- lower numbers.
theorem compaction_recovers_space (requests : List Request) (programs : Slots (Option Bytecode))
    (few : ∀ i b, programs.get i = some b → b.vars.length ≤ Bytecode.maxVariables) :
    let p := history requests
    (∀ i, (p.compact.allocation? i).map (·.size) = (p.allocation? i).map (·.size)) ∧
    (∀ i j a b a' b', p.allocation? i = some a → p.allocation? j = some b → p.compact.allocation? i = some a' →
      p.compact.allocation? j = some b' → (a.offset < b.offset ↔ a'.offset < b'.offset)) ∧
    (∀ n, (∃ (i : Fin slotCount) (a : Allocation), p.compact.allocation? i = some a ∧ a.offset.toNat ≤ n ∧
      n < a.offset.toNat + a.size.toNat) ↔ n < p.used.toNat) ∧
    (∀ (id : Fin slotCount) size, p.compact.allocation? id = none →
      ((∃ offset, (p.compact.allocate id size).1 = .ok offset) ↔ size ≤ p.compact.free)) ∧
    ((layOut programs.toList).2 = [] ↔ ∑ i, exported (programs.get i) ≤ 32) ∧
    (∑ i, exported (programs.get i) ≤ 32 → ∀ i b, programs.get i = some b → b.exports ≠ [] →
      ∃ a, (layOut programs.toList).1.allocation? i = some a ∧
        a.offset.toNat = ∑ j with j < i, exported (programs.get j) ∧ a.size.toNat = widths b.exports) := by
  intro p
  have sound : p.Sound := history_sound requests
  refine ⟨p.compact_keeps_sizes sound, p.compact_keeps_order sound, fun n => ?_,
    fun id size => p.allocate_compacted_iff sound id size id.isLt, lay_out_packed programs few⟩
  rw [← Finset.mem_range, ← p.compact_covers sound]
  simp only [Finset.mem_biUnion, Finset.mem_univ, true_and, mem_places, Allocation.behind]

def scattered : List Request :=
  [.allocate 2 6, .allocate 3 3, .allocate 0 8, .allocate 1 4, .release 2, .release 0]

def showing (types : List DataType) : Bytecode where
  name := none
  code := [.halt]
  vars := types.map fun t =>
    { name := "X", dataType := t, variableClass := .ordinary, exported := true, initial := (Value.int 0).cast t }

def twoShowing : Slots (Option Bytecode) := #v[some (showing [.bool, .dint]), none, some (showing [.real]), none]

theorem scattered_slices_are_packed :
    (∀ i b, twoShowing.get i = some b → b.vars.length ≤ Bytecode.maxVariables) ∧
    let p := history scattered
    (∀ n, (∃ (i : Fin slotCount) (a : Allocation), p.compact.allocation? i = some a ∧ a.offset.toNat ≤ n ∧
      n < a.offset.toNat + a.size.toNat) ↔ n < 7) ∧
    (∃ offset, (p.compact.allocate 0 25).1 = .ok offset) ∧ (¬ ∃ offset, (p.compact.allocate 0 26).1 = .ok offset) ∧
    (layOut twoShowing.toList).2 = [] ∧
    ∃ a, (layOut twoShowing.toList).1.allocation? 2 = some a ∧ a.offset.toNat = 3 ∧ a.size.toNat = 2 := by
  have few : ∀ i b, twoShowing.get i = some b → b.vars.length ≤ Bytecode.maxVariables := by
    have each : ∀ i, ((twoShowing.get i).all fun b => decide (b.vars.length ≤ Bytecode.maxVariables)) = true := by
      decide
    intro i b found
    simpa [found] using each i
  obtain ⟨_, _, covers, accepts, all, placed⟩ := compaction_recovers_space scattered twoShowing few
  have room : ∑ i, exported (twoShowing.get i) ≤ 32 := by decide
  refine ⟨few, covers, ?_, ?_, all.mpr room, ?_⟩
  · exact (accepts ⟨0, by decide⟩ 25 (by decide)).mpr (by decide)
  · exact fun accepted => absurd ((accepts ⟨0, by decide⟩ 26 (by decide)).mp accepted) (by decide)
  · exact placed room ⟨2, by decide⟩ (showing [.real]) rfl (by decide)

end SoftPlc.ExportPool
