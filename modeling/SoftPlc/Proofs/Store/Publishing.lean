import SoftPlc.Proofs.Bytecode.Sound
import SoftPlc.Proofs.Store.Exports

set_option autoImplicit false

namespace SoftPlc

namespace Value

def upperWord (t : DataType) (high : UInt16) : UInt16 := if t.registers = 2 then high else 0

theorem words_bits (bits : UInt32) : bits.toUInt16.toUInt32 ||| (bits >>> 16).toUInt16.toUInt32 <<< 16 = bits := by
  have sixteen : UInt32.toBitVec 16 % 32 = 16#32 := rfl
  rw [← UInt32.toBitVec_inj]
  apply BitVec.eq_of_getLsbD_eq
  intro i inside
  simp only [UInt32.toBitVec_or, UInt32.toBitVec_shiftLeft, UInt16.toBitVec_toUInt32, UInt32.toBitVec_toUInt16,
    UInt32.toBitVec_shiftRight, sixteen, BitVec.getLsbD_or, BitVec.shiftLeft_eq', BitVec.ushiftRight_eq',
    BitVec.getLsbD_shiftLeft, BitVec.getLsbD_setWidth, BitVec.getLsbD_ushiftRight, BitVec.toNat_ofNat, Nat.reducePow,
    Nat.reduceMod]
  grind

theorem of_words_words (v : Value) : ofWords v.dataType v.lowWord (upperWord v.dataType v.highWord) = v := by
  have whole (bits : UInt32) (same : v.bits = bits) : ofBits v.dataType bits = v := same ▸ v.of_bits_bits
  cases v with
  | bool b => cases b <;> rfl
  | int n => exact whole _ (by simp [bits, lowWord, upperWord, dataType, DataType.registers])
  | dint n => exact whole _ (words_bits n.toUInt32).symm
  | dword n => exact whole _ (words_bits n).symm
  | real x => exact whole _ (words_bits x.bits).symm

end Value

namespace Registers

variable (r : Registers)

theorem input_set_self (a v : UInt16) (inside : a.toNat < bankSize) : (r.setInput a v).inputAt a = v := by
  simp [setInput, inputAt, inside]

theorem input_set_other (a b v : UInt16) (other : a ≠ b) : (r.setInput a v).inputAt b = r.inputAt b := by
  have apart : a.toNat ≠ b.toNat := fun same => other (UInt16.toNat_inj.mp same)
  simp [setInput, inputAt, Vector.getElem?_setIfInBounds_ne apart]

def shown (address : Nat) (t : DataType) : Value :=
  .ofWords t (r.inputAt (.ofNat address)) (Value.upperWord t (r.inputAt (.ofNat (address + 1))))

def Agree (s : Registers) (low high : Nat) : Prop :=
  ∀ a : UInt16, low ≤ a.toNat → a.toNat < high → s.inputAt a = r.inputAt a

theorem agree_trans (s t : Registers) (low high : Nat) (first : r.Agree s low high) (second : s.Agree t low high) :
    r.Agree t low high :=
  fun a behind before => (second a behind before).trans (first a behind before)

theorem agree_set (a v : UInt16) (low high : Nat) (outside : a.toNat < low ∨ high ≤ a.toNat) :
    r.Agree (r.setInput a v) low high := by
  intro b behind before
  refine r.input_set_other a b v ?_
  rintro rfl
  omega

theorem shown_agree (s : Registers) (low high address : Nat) (t : DataType) (agree : r.Agree s low high)
    (behind : low ≤ address) (before : address + t.registers.toNat ≤ high) (small : high ≤ 256) :
    s.shown address t = r.shown address t := by
  have cell (n : Nat) (least : low ≤ n) (less : n < high) : s.inputAt (.ofNat n) = r.inputAt (.ofNat n) := by
    have same : (UInt16.ofNat n).toNat = n := UInt16.toNat_ofNat_of_lt' (Nat.lt_of_lt_of_le (by omega : n < 256) (by decide))
    exact agree _ (same.symm ▸ least) (same.symm ▸ less)
  have positive : 0 < t.registers.toNat := by cases t <;> decide
  unfold shown Value.upperWord
  rw [cell address behind (by omega)]
  split
  · rename_i two
    rw [two] at before
    rw [cell (address + 1) (by omega) (by exact before)]
  · rfl

end Registers

namespace ExportPool

def widths : List (Nat × Variable) → Nat
  | [] => 0
  | (_, v) :: rest => v.dataType.registers.toNat + widths rest

theorem widths_append (front back : List (Nat × Variable)) : widths (front ++ back) = widths front + widths back := by
  induction front with
  | nil => exact (Nat.zero_add _).symm
  | cons e rest ih => rw [List.cons_append, widths, widths, ih, Nat.add_assoc]

theorem registers_count (t : DataType) : t.registers.toNat = 1 ∨ t.registers.toNat = 2 := by
  cases t <;> decide

theorem registers_two (t : DataType) : t.registers.toUInt16 = 2 ↔ t.registers = 2 := by
  cases t <;> decide

theorem widths_zero (exported : List (Nat × Variable)) (none : widths exported = 0) : exported = [] := by
  cases exported with
  | nil => rfl
  | cons e rest =>
    have positive := registers_count e.2.dataType
    rw [widths] at none
    omega

section
variable (a : Allocation) (values : List Value)

theorem place_toNat (slot : UInt16) (within : a.behind ≤ 32) (room : slot.toNat ≤ a.size.toNat) :
    (a.base + slot).toNat = 220 + a.offset.toNat + slot.toNat := by
  have behind : a.behind = a.offset.toNat + a.size.toNat := rfl
  have base : a.base.toNat = 220 + a.offset.toNat := by
    rw [Allocation.base, UInt16.toNat_add, UInt8.toNat_toUInt16]
    exact Nat.mod_eq_of_lt (by unfold Allocation.poolBase; simp; omega)
  rw [UInt16.toNat_add, base]
  exact Nat.mod_eq_of_lt (by omega)

theorem next_slot (slot : UInt16) (t : DataType) (room : slot.toNat ≤ a.size.toNat) :
    (slot + t.registers.toUInt16).toNat = slot.toNat + t.registers.toNat := by
  have size := a.size.toNat_lt
  have count := registers_count t
  rw [UInt16.toNat_add, UInt8.toNat_toUInt16]
  exact Nat.mod_eq_of_lt (by omega)

theorem address_next (address : UInt16) (small : address.toNat < 256) : (address + 1).toNat = address.toNat + 1 := by
  rw [UInt16.toNat_add]
  exact Nat.mod_eq_of_lt (by simp; omega)

def publishOne (address : UInt16) (t : DataType) (value : Value) (r : Registers) : Registers :=
  let r := r.setInput address value.lowWord
  if t.registers.toUInt16 = 2 then r.setInput (address + 1) value.highWord else r

theorem publish_from_cons (slot : UInt16) (r : Registers) (index : Nat) (v : Variable) (rest : List (Nat × Variable)) :
    publishFrom a values slot r ((index, v) :: rest) =
      if a.size.toUInt16 < slot + v.dataType.registers.toUInt16 then r
      else match values[index]? with
        | none => r
        | some value => publishFrom a values (slot + v.dataType.registers.toUInt16)
            (publishOne (a.base + slot) v.dataType (value.cast v.dataType) r) rest := rfl

theorem one_agree (address : UInt16) (t : DataType) (value : Value) (r : Registers) (low high : Nat)
    (small : address.toNat < 256) (outside : address.toNat + t.registers.toNat ≤ low ∨ high ≤ address.toNat) :
    r.Agree (publishOne address t value r) low high := by
  have next : (address + 1).toNat = address.toNat + 1 := address_next address small
  have positive := registers_count t
  have lower := r.agree_set address value.lowWord low high (by omega)
  unfold publishOne
  split
  · rename_i two
    have count : t.registers.toNat = 2 := congrArg UInt8.toNat ((registers_two t).mp two)
    exact Registers.agree_trans _ _ _ low high lower (Registers.agree_set _ _ _ low high (by omega))
  · exact lower

theorem one_shown (address : UInt16) (value : Value) (r : Registers)
    (inside : address.toNat + value.dataType.registers.toNat ≤ 256) :
    (publishOne address value.dataType value r).shown address.toNat value.dataType = value := by
  have positive := registers_count value.dataType
  have small : address.toNat < 256 := by omega
  have next := address_next address small
  have behind : UInt16.ofNat (address.toNat + 1) = address + 1 := by rw [← next, UInt16.ofNat_toNat]
  unfold Registers.shown
  rw [UInt16.ofNat_toNat, behind]
  refine Eq.trans ?_ value.of_words_words
  simp only [publishOne, Value.upperWord, registers_two]
  by_cases two : value.dataType.registers = 2
  · have count : value.dataType.registers.toNat = 2 := congrArg UInt8.toNat two
    have apart : address + 1 ≠ address := fun same => by
      have equal := congrArg UInt16.toNat same
      omega
    simp only [if_pos two]
    rw [Registers.input_set_other _ _ _ _ apart, Registers.input_set_self _ address _ small,
      Registers.input_set_self _ (address + 1) _ (by unfold bankSize; omega)]
  · simp only [if_neg two]
    rw [Registers.input_set_self _ address _ small]

section
variable (within : a.behind ≤ 32)
include within

-- Whatever the variables and values are, nothing beside the slice is written, and nothing in front
-- of the slot.
theorem publish_from_agree (slot : UInt16) (r : Registers) (exported : List (Nat × Variable)) (low high : Nat)
    (room : slot.toNat ≤ a.size.toNat)
    (outside : high ≤ 220 + a.offset.toNat + slot.toNat ∨ 220 + a.behind ≤ low) :
    r.Agree (publishFrom a values slot r exported) low high := by
  induction exported generalizing slot r with
  | nil => exact fun _ _ _ => rfl
  | cons e rest ih =>
    obtain ⟨index, v⟩ := e
    rw [publish_from_cons]
    have next := next_slot a slot v.dataType room
    split
    · exact fun _ _ _ => rfl
    · rename_i fits
      have still : (slot + v.dataType.registers.toUInt16).toNat ≤ a.size.toNat := by
        rw [← UInt8.toNat_toUInt16 a.size]
        exact UInt16.le_iff_toNat_le.mp (UInt16.not_lt.mp fits)
      have place := place_toNat a slot within room
      have behind : a.behind = a.offset.toNat + a.size.toNat := rfl
      split
      · exact fun _ _ _ => rfl
      · rename_i value _
        have first := one_agree (a.base + slot) v.dataType (value.cast v.dataType) r low high (by omega) (by omega)
        exact Registers.agree_trans _ _ _ low high first (ih _ _ still (by omega))

theorem publish_from_shown (slot : UInt16) (r : Registers) (exported : List (Nat × Variable))
    (room : slot.toNat + widths exported ≤ a.size.toNat)
    (typed : ∀ e ∈ exported, ∃ value, values[e.1]? = some value ∧ value.dataType = e.2.dataType)
    (before later : List (Nat × Variable)) (index : Nat) (v : Variable) (split : exported = before ++ (index, v) :: later) :
    values[index]? = some ((publishFrom a values slot r exported).shown
      (220 + a.offset.toNat + slot.toNat + widths before) v.dataType) := by
  induction exported generalizing slot r before with
  | nil => cases before <;> cases split
  | cons e rest ih =>
    obtain ⟨first, w⟩ := e
    obtain ⟨value, found, type⟩ := typed (first, w) List.mem_cons_self
    rw [widths] at room
    have start : slot.toNat ≤ a.size.toNat := by omega
    have next := next_slot a slot w.dataType start
    have fits : ¬ a.size.toUInt16 < slot + w.dataType.registers.toUInt16 := by
      rw [UInt16.not_lt, UInt16.le_iff_toNat_le, UInt8.toNat_toUInt16]
      omega
    have same : value.cast w.dataType = value := type ▸ value.cast_self
    have written : publishFrom a values slot r ((first, w) :: rest) =
        publishFrom a values (slot + w.dataType.registers.toUInt16) (publishOne (a.base + slot) w.dataType value r) rest := by
      rw [publish_from_cons, if_neg fits]
      simp only [found, same]
    rw [written]
    cases before with
    | nil =>
      cases split
      have place := place_toNat a slot within start
      have behind : a.behind = a.offset.toNat + a.size.toNat := rfl
      have declared : value.dataType = v.dataType := type
      have kept := publish_from_agree a values within (slot + v.dataType.registers.toUInt16)
        (publishOne (a.base + slot) v.dataType value r) later (220 + a.offset.toNat + slot.toNat)
        (220 + a.offset.toNat + slot.toNat + v.dataType.registers.toNat) (by omega) (by omega)
      rw [found, widths, Nat.add_zero, Registers.shown_agree _ _ _ _ _ _ kept (Nat.le_refl _) (Nat.le_refl _) (by omega)]
      rw [← place, ← declared, one_shown (a.base + slot) value r (by rw [declared]; omega)]
    | cons _ before =>
      cases split
      have behind := ih (slot + w.dataType.registers.toUInt16) (publishOne (a.base + slot) w.dataType value r)
        (by omega) (fun e member => typed e (List.mem_cons_of_mem _ member)) before rfl
      rw [behind, widths, next]
      congr 2
      omega

end

end

theorem mem_exports (b : Bytecode) (index : Nat) (v : Variable) (exported : (index, v) ∈ b.exports) :
    b.vars[index]? = some v := by
  obtain ⟨⟨w, i⟩, member, same⟩ := List.mem_map.mp exported
  cases same
  exact List.mem_zipIdx_iff_getElem?.mp (List.mem_filter.mp member).1

theorem export_size_widths (b : Bytecode) (few : b.vars.length ≤ Bytecode.maxVariables) :
    b.exportSize.toNat = widths b.exports := by
  have summed (exported : List (Nat × Variable)) (short : exported.length ≤ 32) :
      (exported.foldr (fun (e : Nat × Variable) rest => e.2.dataType.registers + rest) 0).toNat = widths exported ∧
        widths exported ≤ 2 * exported.length := by
    induction exported with
    | nil => exact ⟨rfl, Nat.le_refl _⟩
    | cons e rest ih =>
      rw [List.length_cons] at short ⊢
      obtain ⟨count, less⟩ := ih (by omega)
      have width := registers_count e.2.dataType
      refine ⟨?_, by rw [widths]; omega⟩
      rw [List.foldr_cons, byte_sum _ _ (by omega), count, widths]
  refine (summed b.exports ?_).1
  have length : b.exports.length ≤ b.vars.length := by
    unfold Bytecode.exports
    rw [List.length_map]
    exact (List.length_filter_le _ _).trans_eq List.length_zipIdx
  exact length.trans few

section
variable (p : ExportPool) (id : Nat) (b : Bytecode) (values : List Value) (r : Registers)

theorem publish_agree (low high : Nat) (outside : ∀ a, p.allocation? id = some a →
    a.behind ≤ 32 ∧ (high ≤ 220 + a.offset.toNat ∨ 220 + a.behind ≤ low)) :
    r.Agree (p.publish id b values r) low high := by
  unfold publish
  cases found : p.allocation? id with
  | none => exact fun _ _ _ => rfl
  | some a =>
    obtain ⟨within, beside⟩ := outside a found
    exact publish_from_agree a values within 0 r b.exports low high (Nat.zero_le _) beside

theorem publish_shown (a : Allocation) (found : p.allocation? id = some a) (within : a.behind ≤ 32)
    (size : a.size = b.exportSize) (few : b.vars.length ≤ Bytecode.maxVariables) (fits : Fits b.vars values)
    (before later : List (Nat × Variable)) (index : Nat) (v : Variable) (split : b.exports = before ++ (index, v) :: later) :
    values[index]? = some ((p.publish id b values r).shown (220 + a.offset.toNat + widths before) v.dataType) := by
  have room : (0 : UInt16).toNat + widths b.exports ≤ a.size.toNat := by
    rw [size, export_size_widths b few, UInt16.toNat_zero, Nat.zero_add]
  have typed : ∀ e ∈ b.exports, ∃ value, values[e.1]? = some value ∧ value.dataType = e.2.dataType :=
    fun e member => fits_get b.vars values e.1 e.2 fits (mem_exports b e.1 e.2 member)
  unfold publish
  rw [found]
  exact publish_from_shown a values within 0 r b.exports room typed before later index v split

end

end ExportPool

end SoftPlc
