import SoftPlc.Numeric.Binary
import SoftPlc.Numeric.Shortest
import SoftPlc.Numeric.Trigonometry

set_option autoImplicit false

namespace SoftPlc.Numeric

inductive RoundingMode where
  | nearestAway
  | towardZero
  | down
  | up
deriving DecidableEq, Repr

namespace RoundingMode

def magnitude (mode : RoundingMode) (negative : Bool) (num den : Nat) : Nat :=
  let quotient := num / den
  let rest := num % den
  match mode with
  | .nearestAway => if den ≤ 2 * rest then quotient + 1 else quotient
  | .towardZero => quotient
  | .down => if negative ∧ rest ≠ 0 then quotient + 1 else quotient
  | .up => if ¬ negative ∧ rest ≠ 0 then quotient + 1 else quotient

def toInt (mode : RoundingMode) (negative : Bool) (magnitude : Nat) (scale : Int) : Int :=
  let rounded :=
    if 0 ≤ scale then magnitude * 2 ^ scale.toNat
    else mode.magnitude negative magnitude (2 ^ (-scale).toNat)
  if negative then -(rounded : Int) else rounded

end RoundingMode

def clamp (low high n : Int) : Int :=
  max low (min high n)

theorem low_le_clamp (low high n : Int) : low ≤ clamp low high n := by
  unfold clamp
  omega

theorem clamp_le_high (low high n : Int) (h : low ≤ high) : clamp low high n ≤ high := by
  unfold clamp
  omega

theorem clamp_of_mem (low high n : Int) (hl : low ≤ n) (hh : n ≤ high) :
    clamp low high n = n := by
  unfold clamp
  omega

structure Double where
  bits : UInt64
deriving DecidableEq, Repr, Inhabited

namespace Double

-- The double nearest to `digits * 10 ^ exponent`. A number far outside the range is settled
-- by its number of digits, before any power is formed.
def ofDecimal (digits : Nat) (exponent : Int) : Double :=
  let fmt := BinaryFormat.double
  let places : Int := exponent + (Nat.toDigits 10 digits).length
  let pattern :=
    if digits = 0 ∨ places < -400 then 0
    else if 400 < places then fmt.infinity
    else if 0 ≤ exponent then fmt.round false (digits * 10 ^ exponent.toNat) 1
    else fmt.round false digits (10 ^ (-exponent).toNat)
  ⟨UInt64.ofNat pattern⟩

def render (x : Double) : String :=
  BinaryFormat.double.render x.bits.toNat

end Double

structure Single where
  bits : UInt32
deriving DecidableEq, Repr, Inhabited

namespace Single

def ofPattern (pattern : Nat) : Single := ⟨UInt32.ofNat pattern⟩

def pattern (x : Single) : Nat := x.bits.toNat

def zero : Single := ⟨0⟩

def ofInt (n : Int) : Single :=
  ofPattern (BinaryFormat.single.roundSigned false n 0)

def ofDouble (x : Double) : Single :=
  let fmt := BinaryFormat.single
  ofPattern <| match BinaryFormat.double.read x.bits.toNat with
    | .nan => fmt.quietNaN
    | .infinite negative => fmt.withSign negative fmt.infinity
    | .finite negative magnitude scale => fmt.roundScaled negative magnitude scale

def render (x : Single) : String :=
  BinaryFormat.single.render x.pattern

def isNaN (x : Single) : Bool :=
  BinaryFormat.single.read x.pattern = .nan

def isZero (x : Single) : Bool :=
  x.pattern % BinaryFormat.single.signBit = 0

def add (x y : Single) : Single := ofPattern (BinaryFormat.single.add x.pattern y.pattern)

def subtract (x y : Single) : Single :=
  ofPattern (BinaryFormat.single.subtract x.pattern y.pattern)

def multiply (x y : Single) : Single :=
  ofPattern (BinaryFormat.single.multiply x.pattern y.pattern)

def divide (x y : Single) : Single :=
  ofPattern (BinaryFormat.single.divide x.pattern y.pattern)

def negate (x : Single) : Single := ⟨x.bits ^^^ 0x80000000⟩

def abs (x : Single) : Single := ⟨x.bits &&& 0x7fffffff⟩

def sqrt (x : Single) : Single := ofPattern (BinaryFormat.single.sqrt x.pattern)

def sine (x : Single) : Single := ofPattern (Trigonometry.sine .single x.pattern)

def cosine (x : Single) : Single := ofPattern (Trigonometry.cosine .single x.pattern)

def tangent (x : Single) : Single := ofPattern (Trigonometry.tangent .single x.pattern)

def order (x y : Single) : Option Ordering :=
  BinaryFormat.single.order x.pattern y.pattern

def less (x y : Single) : Bool := x.order y = some .lt

-- The number rounded to an integer of the range `low .. high`, where numbers outside take
-- the nearer end and what is not a number becomes `undefined`.
def toInt (mode : RoundingMode) (low high undefined : Int) (x : Single) : Int :=
  match BinaryFormat.single.read x.pattern with
  | .nan => undefined
  | .infinite negative => if negative then low else high
  | .finite negative magnitude scale => clamp low high (mode.toInt negative magnitude scale)

def truncate (low high : Int) (x : Single) : Int :=
  x.toInt .towardZero low high 0

end Single

end SoftPlc.Numeric
