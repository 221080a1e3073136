import SoftPlc.Value.Arithmetic

set_option autoImplicit false

namespace SoftPlc

namespace DataType

def Holds : DataType → Int → Prop
  | .int, n => -32768 ≤ n ∧ n < 32768
  | .dint, n => -2147483648 ≤ n ∧ n < 2147483648
  | .dword, n => 0 ≤ n ∧ n < 4294967296
  | .bool, _ | .real, _ => False

instance (t : DataType) (n : Int) : Decidable (t.Holds n) := by
  cases t <;> unfold Holds <;> infer_instance

def width : DataType → Int
  | .int => 65536
  | .dint | .dword => 4294967296
  | .bool | .real => 0

end DataType

namespace Value

def ofInt (t : DataType) (n : Int) : Value :=
  match t with
  | .int => .int (Int16.ofInt n)
  | .dint => .dint (Int32.ofInt n)
  | .dword => .dword (UInt32.ofInt n)
  | .bool | .real => .zero t

@[simp]
theorem dataType_ofInt (t : DataType) (n : Int) : (ofInt t n).dataType = t := by
  cases t <;> rfl

theorem cast_of_int_self (t : DataType) (n : Int) : (ofInt t n).cast t = ofInt t n := by
  rw [cast.eq_def, if_pos (dataType_ofInt t n)]

theorem dword_to_int (n : Int) : (((UInt32.ofInt n).toNat : Nat) : Int) = n % 4294967296 := by
  have low : 0 ≤ n % 4294967296 := Int.emod_nonneg n (by decide)
  have high : n % 4294967296 < 4294967296 := Int.emod_lt_of_pos n (by decide)
  rw [UInt32.ofInt, UInt32.toNat_ofNat', Nat.mod_eq_of_lt (by omega)]
  exact Int.toNat_of_nonneg low

variable (t : DataType) (integer : t.isInteger = true)
include integer

theorem wraps (n : Int) : t.Holds (ofInt t n).toInt ∧ ∃ k, (ofInt t n).toInt = n - k * t.width := by
  cases t with
  | bool | real => cases integer
  | int =>
    simp only [ofInt, toInt, Int16.toInt_ofInt, Int16.size, DataType.Holds, DataType.width, Int.bmod_def]
    split
    · exact ⟨by omega, n / 65536, by omega⟩
    · exact ⟨by omega, n / 65536 + 1, by omega⟩
  | dint =>
    simp only [ofInt, toInt, Int32.toInt_ofInt, Int32.size, DataType.Holds, DataType.width, Int.bmod_def]
    split
    · exact ⟨by omega, n / 4294967296, by omega⟩
    · exact ⟨by omega, n / 4294967296 + 1, by omega⟩
  | dword =>
    simp only [ofInt, toInt, dword_to_int, DataType.Holds, DataType.width]
    exact ⟨by omega, n / 4294967296, by omega⟩

theorem held_apart (n m k : Int) (first : t.Holds n) (second : t.Holds m) (apart : n = m - k * t.width) : n = m := by
  cases t with
  | bool | real => cases integer
  | int | dint | dword =>
    simp only [DataType.Holds, DataType.width] at first second apart
    omega

theorem to_int_held (n : Int) (held : t.Holds n) : (ofInt t n).toInt = n := by
  obtain ⟨inside, k, apart⟩ := wraps t integer n
  exact held_apart t integer _ n k inside held apart

-- A number that is too large by one step comes down below where the step began, and the other way round.
theorem wraps_below (n s : Int) (first : t.Holds n) (step : t.Holds s) (out : ¬ t.Holds (n + s)) (up : 0 < s) :
    (ofInt t (n + s)).toInt < n := by
  obtain ⟨inside, k, apart⟩ := wraps t integer (n + s)
  rw [apart] at inside ⊢
  cases t with
  | bool | real => cases integer
  | int | dint | dword =>
    simp only [DataType.Holds, DataType.width] at *
    omega

theorem wraps_above (n s : Int) (first : t.Holds n) (step : t.Holds s) (out : ¬ t.Holds (n + s)) (down : s < 0) :
    n < (ofInt t (n + s)).toInt := by
  obtain ⟨inside, k, apart⟩ := wraps t integer (n + s)
  rw [apart] at inside ⊢
  cases t with
  | bool | real => cases integer
  | int | dint | dword =>
    simp only [DataType.Holds, DataType.width] at *
    omega

theorem add_of_int (n m : Int) : (ofInt t n).add (ofInt t m) = .ok (ofInt t (n + m)) := by
  cases t with
  | bool | real => cases integer
  | int => exact congrArg (Except.ok ∘ Value.int) (Int16.ofInt_add n m).symm
  | dint => exact congrArg (Except.ok ∘ Value.dint) (Int32.ofInt_add n m).symm
  | dword => exact congrArg (Except.ok ∘ Value.dword) (UInt32.ofInt_add n m).symm

end Value

namespace Value

variable (v : Value) (integer : v.dataType.isInteger = true)
include integer

theorem of_int_to_int : ofInt v.dataType v.toInt = v := by
  cases v with
  | bool | real => cases integer
  | int n => exact congrArg Value.int (Int16.ofInt_toInt n)
  | dint n => exact congrArg Value.dint (Int32.ofInt_toInt n)
  | dword n =>
    have same : (UInt32.ofInt n.toNat).toNat = n.toNat := by
      have small := n.toNat_lt
      have whole := dword_to_int n.toNat
      omega
    exact congrArg Value.dword (UInt32.toNat_inj.mp same)

theorem holds_to_int : v.dataType.Holds v.toInt := by
  rw [← v.of_int_to_int integer, dataType_ofInt]
  exact (wraps v.dataType integer v.toInt).1

theorem cast_of_int (t : DataType) (wanted : t.isInteger = true) : v.cast t = ofInt t v.toInt := by
  by_cases same : v.dataType = t
  · subst same
    rw [v.cast_self, v.of_int_to_int integer]
  · rw [cast.eq_def, if_neg same]
    cases t with
    | bool | real => cases wanted
    | int | dint | dword =>
      cases v with
      | bool | real => cases integer
      | int | dint | dword => rfl

omit integer in
theorem holds_cast (t : DataType) (wanted : t.isInteger = true) : t.Holds (v.cast t).toInt := by
  have holds := (v.cast t).holds_to_int (by rw [v.dataType_cast, wanted])
  rwa [v.dataType_cast] at holds

end Value

namespace BinaryOp

attribute [local simp] holdsOf

theorem holds_equal (a b : Int) : BinaryOp.equal.holdsOf (some (compare a b)) = decide (a = b) := by
  simp

theorem holds_less (a b : Int) : BinaryOp.less.holdsOf (some (compare a b)) = decide (a < b) := by
  simp [Int.compare_eq_lt]

theorem holds_less_equal (a b : Int) :
    BinaryOp.lessEqual.holdsOf (some (compare a b)) = decide (a ≤ b) := by
  simp [Int.compare_eq_lt, Int.le_iff_lt_or_eq]

theorem holds_greater_equal (a b : Int) :
    BinaryOp.greaterEqual.holdsOf (some (compare a b)) = decide (b ≤ a) := by
  simp [Int.compare_eq_gt, Int.le_iff_lt_or_eq, @eq_comm _ a b]

theorem compare_nat (a b : Nat) : compare a b = compare (a : Int) (b : Int) := by
  simp only [compare, compareOfLessAndEq, Int.ofNat_lt]
  grind

theorem apply_integers (op : BinaryOp) (l r : Value) (same : r.dataType = l.dataType)
    (integer : l.dataType.isInteger = true) (compares : op.isComparison = true) :
    op.apply l r = .ok (.bool (op.holdsOf (some (compare l.toInt r.toInt)))) := by
  have ordered : l.order r = .ok (some (compare l.toInt r.toInt)) := by
    cases l <;> cases r <;> cases same
    case bool => cases integer
    case real => cases integer
    case int => rfl
    case dint => rfl
    case dword l r => exact congrArg (fun o => Except.ok (some o)) (compare_nat l.toNat r.toNat)
  cases op with
  | equal | notEqual | less | lessEqual | greater | greaterEqual =>
    simp only [apply, ordered, Except.map]
  | _ => cases compares

end BinaryOp

end SoftPlc
