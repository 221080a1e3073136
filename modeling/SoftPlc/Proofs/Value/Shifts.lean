import Mathlib.Algebra.Ring.Nat
import SoftPlc.Proofs.Value.Integers

set_option autoImplicit false

namespace SoftPlc.Value

def CountsPlaces (count : Value) : Prop := 0 ≤ count.toInt ∧ count.toInt ≤ 31

instance (count : Value) : Decidable count.CountsPlaces := by
  unfold CountsPlaces
  infer_instance

def shifted (op : BinaryOp) (v : Value) (places : Nat) : Value :=
  let pattern : Nat := if op = .shiftLeft then v.bits.toNat * 2 ^ places else v.bits.toNat / 2 ^ places
  .ofInt v.dataType pattern

def badCount : Fault := .because .illegalFunctionCall "SHIFT COUNT OUT OF RANGE"

theorem of_int_shift_left {width : Nat} (x : BitVec width) (places : Nat) :
    x <<< places = BitVec.ofInt width (x.toNat * 2 ^ places : Nat) := by
  rw [BitVec.ofInt_natCast]
  apply BitVec.eq_of_toNat_eq
  rw [BitVec.toNat_shiftLeft, BitVec.toNat_ofNat, Nat.shiftLeft_eq]

theorem of_int_shift_right {width : Nat} (x : BitVec width) (places : Nat) :
    x >>> places = BitVec.ofInt width (x.toNat / 2 ^ places : Nat) := by
  rw [BitVec.ofInt_natCast]
  apply BitVec.eq_of_toNat_eq
  have small : x.toNat / 2 ^ places < 2 ^ width := Nat.lt_of_le_of_lt (Nat.div_le_self _ _) x.isLt
  rw [BitVec.toNat_ushiftRight, BitVec.toNat_ofNat, Nat.shiftRight_eq_div_pow, Nat.mod_eq_of_lt small]

theorem of_bit_vec_nat (n : Nat) : UInt32.ofBitVec (BitVec.ofInt 32 n) = UInt32.ofInt n := by
  apply UInt32.toNat_inj.mp
  have whole := dword_to_int n
  rw [BitVec.ofInt_natCast, UInt32.toNat_ofBitVec, BitVec.toNat_ofNat]
  omega

theorem bits_int (n : Int16) : (Value.int n).bits.toNat = n.toBitVec.toNat := by
  rw [bits, Int16.toUInt16, UInt16.toNat_toUInt32]
  rfl

theorem shift_places (op : BinaryOp) (shift : op.isShift = true) (v : Value) (integer : v.dataType.isInteger = true)
    (count : Value) : op.apply v count =
      if count.CountsPlaces then .ok (shifted op v count.toInt.toNat) else .error badCount := by
  by_cases counts : count.CountsPlaces
  · have places : shiftCount count = .ok count.toInt.toNat := if_pos counts
    rw [if_pos counts]
    cases op with
    | shiftLeft =>
      simp only [BinaryOp.apply, shiftLeft, places, shifted, if_true]
      cases v with
      | bool | real => cases integer
      | int n =>
        rw [bits_int]
        exact congrArg (fun x => Except.ok (Value.int (.ofBitVec x))) (of_int_shift_left n.toBitVec _)
      | dint n => exact congrArg (fun x => Except.ok (Value.dint (.ofBitVec x))) (of_int_shift_left n.toBitVec _)
      | dword n =>
        have same := congrArg UInt32.ofBitVec (of_int_shift_left n.toBitVec count.toInt.toNat)
        exact congrArg (Except.ok ∘ Value.dword) (same.trans (of_bit_vec_nat _))
    | shiftRight =>
      simp only [BinaryOp.apply, shiftRight, places, shifted, reduceCtorEq, if_false]
      cases v with
      | bool | real => cases integer
      | int n =>
        rw [bits_int]
        exact congrArg (fun x => Except.ok (Value.int (.ofBitVec x))) (of_int_shift_right n.toBitVec _)
      | dint n => exact congrArg (fun x => Except.ok (Value.dint (.ofBitVec x))) (of_int_shift_right n.toBitVec _)
      | dword n =>
        have same := congrArg UInt32.ofBitVec (of_int_shift_right n.toBitVec count.toInt.toNat)
        exact congrArg (Except.ok ∘ Value.dword) (same.trans (of_bit_vec_nat _))
    | _ => cases shift
  · have refused : shiftCount count = .error badCount := if_neg counts
    rw [if_neg counts]
    cases op with
    | shiftLeft => simp only [BinaryOp.apply, shiftLeft, refused]
    | shiftRight => simp only [BinaryOp.apply, shiftRight, refused]
    | _ => cases shift

section
variable (n : Value) (integer : n.dataType.isInteger = true) (t : DataType) (wanted : t.isInteger = true)
include integer wanted

theorem count_kept (counts : n.CountsPlaces) : (n.cast t).toInt = n.toInt := by
  rw [n.cast_of_int integer t wanted]
  refine to_int_held t wanted n.toInt ?_
  unfold CountsPlaces at counts
  cases t with
  | bool | real => cases wanted
  | int | dint | dword =>
    simp only [DataType.Holds]
    omega

theorem counts_wide (wide : n.dataType.registers ≤ t.registers) : (n.cast t).CountsPlaces ↔ n.CountsPlaces := by
  constructor
  · intro counts
    unfold CountsPlaces at counts ⊢
    rw [n.cast_of_int integer t wanted] at counts
    obtain ⟨_, k, apart⟩ := wraps t wanted n.toInt
    have inside := n.holds_to_int integer
    generalize n.dataType = own at *
    -- widths 65536 and 4294967296: two numbers of a type are less than its width apart
    cases own <;> cases t <;> first
      | cases integer; done
      | cases wanted; done
      | exact absurd wide (by decide)
      | simp only [DataType.Holds, DataType.width] at inside apart; omega
  · intro counts
    have kept := count_kept n integer t wanted counts
    unfold CountsPlaces at counts ⊢
    omega

end

end SoftPlc.Value
