import SoftPlc.Value.DataType
import SoftPlc.Numeric.Float

/-!
Run-time values. Every value carries its type; conversions wrap integers at the width of the
target and cut the fraction of REAL numbers, keeping them inside the range of the target.
-/
set_option autoImplicit false

namespace SoftPlc

open Numeric

inductive Value where
  | bool (b : Bool)
  | int (n : Int16)
  | dint (n : Int32)
  | dword (n : UInt32)
  | real (x : Single)
deriving DecidableEq, Repr

namespace Value

def zero : DataType → Value
  | .bool => .bool false
  | .int => .int 0
  | .dint => .dint 0
  | .dword => .dword 0
  | .real => .real Single.zero

instance : Inhabited Value := ⟨.int 0⟩

def dataType : Value → DataType
  | .bool _ => .bool
  | .int _ => .int
  | .dint _ => .dint
  | .dword _ => .dword
  | .real _ => .real

@[simp] theorem dataType_zero (t : DataType) : (zero t).dataType = t := by
  cases t <;> rfl

def toInt : Value → Int
  | .bool b => if b then 1 else 0
  | .int n => n.toInt
  | .dint n => n.toInt
  | .dword n => n.toNat
  | .real x => x.truncate (-9223372036854775808) 9223372036854775807

def toSingle : Value → Single
  | .bool b => Single.ofInt (if b then 1 else 0)
  | .int n => Single.ofInt n.toInt
  | .dint n => Single.ofInt n.toInt
  | .dword n => Single.ofInt n.toNat
  | .real x => x

def isTrue : Value → Bool
  | .bool b => b
  | .real x => !x.isZero
  | v => v.toInt != 0

def cast (v : Value) (t : DataType) : Value :=
  if v.dataType = t then v
  else match t with
    | .bool => .bool v.isTrue
    | .real => .real v.toSingle
    | .int => match v with
      | .real x => .int (Int16.ofInt (x.truncate (-32768) 32767))
      | v => .int (Int16.ofInt v.toInt)
    | .dint => match v with
      | .real x => .dint (Int32.ofInt (x.truncate (-2147483648) 2147483647))
      | v => .dint (Int32.ofInt v.toInt)
    | .dword => match v with
      | .real x => .dword (UInt32.ofInt (x.truncate 0 4294967295))
      | v => .dword (UInt32.ofInt v.toInt)

theorem cast_self (v : Value) : v.cast v.dataType = v := by
  simp [cast]

@[simp] theorem dataType_cast (v : Value) (t : DataType) : (v.cast t).dataType = t := by
  unfold cast
  split
  · assumption
  · cases t <;> cases v <;> rfl

def bits : Value → UInt32
  | .bool b => if b then 1 else 0
  | .int n => n.toUInt16.toUInt32
  | .dint n => n.toUInt32
  | .dword n => n
  | .real x => x.bits

def ofBits (t : DataType) (bits : UInt32) : Value :=
  match t with
  | .bool => .bool (bits.toUInt16 != 0)
  | .int => .int bits.toUInt16.toInt16
  | .dint => .dint bits.toInt32
  | .dword => .dword bits
  | .real => .real ⟨bits⟩

@[simp] theorem dataType_ofBits (t : DataType) (b : UInt32) : (ofBits t b).dataType = t := by
  cases t <;> rfl

def lowWord (v : Value) : UInt16 := v.bits.toUInt16

def highWord (v : Value) : UInt16 := (v.bits >>> 16).toUInt16

def ofWords (t : DataType) (low high : UInt16) : Value :=
  ofBits t (low.toUInt32 ||| high.toUInt32 <<< 16)

@[simp] theorem dataType_ofWords (t : DataType) (low high : UInt16) :
    (ofWords t low high).dataType = t :=
  dataType_ofBits t _

def render : Value → String
  | .bool b => if b then "TRUE" else "FALSE"
  | .int n => toString n.toInt
  | .dint n => toString n.toInt
  | .dword n => toString n.toNat
  | .real x => x.render

def renderTagged (v : Value) : String :=
  v.dataType.name ++ ":" ++ v.render

end Value

end SoftPlc
