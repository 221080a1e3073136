/-!
Binary floating-point formats. A bit pattern is read as an exact number `m * 2 ^ q`, an exact
ratio is rounded once to the nearest pattern with ties to the even one, and arithmetic is exact
arithmetic followed by that one rounding.
-/
set_option autoImplicit false

namespace SoftPlc.Numeric

-- Powers are the built-in ones, also where other algebra is in scope.
scoped instance power : Pow Nat Nat := instPowNat

structure BinaryFormat where
  fraction : Nat
  bias : Nat

namespace BinaryFormat

def single : BinaryFormat := ⟨23, 127⟩

def double : BinaryFormat := ⟨52, 1023⟩

variable (fmt : BinaryFormat)

def infinity : Nat := (2 * fmt.bias + 1) * 2 ^ fmt.fraction

def signBit : Nat := (2 * fmt.bias + 2) * 2 ^ fmt.fraction

def quietNaN : Nat := fmt.infinity + 2 ^ (fmt.fraction - 1)

def lowest : Int := 1 - (fmt.bias : Int) - (fmt.fraction : Int)

end BinaryFormat

inductive Reading where
  | nan
  | infinite (negative : Bool)
  | finite (negative : Bool) (magnitude : Nat) (scale : Int)
deriving DecidableEq, Repr

namespace BinaryFormat

variable (fmt : BinaryFormat)

def withSign (negative : Bool) (pattern : Nat) : Nat :=
  if negative then fmt.signBit + pattern else pattern

def read (pattern : Nat) : Reading :=
  let negative := decide (fmt.signBit ≤ pattern)
  let body := pattern % fmt.signBit
  if fmt.infinity < body then .nan
  else if body = fmt.infinity then .infinite negative
  else
    let exponent := body / 2 ^ fmt.fraction
    let stored := body % 2 ^ fmt.fraction
    if exponent = 0 then .finite negative stored fmt.lowest
    else .finite negative (2 ^ fmt.fraction + stored) (fmt.lowest + (exponent - 1 : Nat))

def nearestEven (num den : Nat) : Nat :=
  let quotient := num / den
  let twice := 2 * (num % den)
  if twice < den then quotient
  else if den < twice then quotient + 1
  else if quotient % 2 = 0 then quotient else quotient + 1

def floorLog2 (num den : Nat) : Int :=
  let guess : Int := (num.log2 : Int) - (den.log2 : Int)
  let below :=
    if 0 ≤ guess then num < den * 2 ^ guess.toNat
    else num * 2 ^ (-guess).toNat < den
  if below then guess - 1 else guess

-- The pattern nearest to the positive or zero number `num / den`, for `den > 0`.
-- Adding the rounded significand to the scaled exponent carries into the exponent by itself.
def roundMagnitude (num den : Nat) : Nat :=
  if num = 0 then 0
  else
    let last := max (floorLog2 num den - (fmt.fraction : Int)) fmt.lowest
    let significand :=
      if 0 ≤ last then nearestEven num (den * 2 ^ last.toNat)
      else nearestEven (num * 2 ^ (-last).toNat) den
    let pattern := significand + (last - fmt.lowest).toNat * 2 ^ fmt.fraction
    min pattern fmt.infinity

def round (negative : Bool) (num den : Nat) : Nat :=
  fmt.withSign negative (fmt.roundMagnitude num den)

def roundScaled (negative : Bool) (magnitude : Nat) (scale : Int) : Nat :=
  if 0 ≤ scale then fmt.round negative (magnitude * 2 ^ scale.toNat) 1
  else fmt.round negative magnitude (2 ^ (-scale).toNat)

def roundSigned (zeroNegative : Bool) (value scale : Int) : Nat :=
  if value = 0 then fmt.withSign zeroNegative 0
  else fmt.roundScaled (decide (value < 0)) value.natAbs scale

def inUnits (negative : Bool) (magnitude : Nat) (scale unit : Int) : Int :=
  let units : Int := (magnitude * 2 ^ (scale - unit).toNat : Nat)
  if negative then -units else units

def add (x y : Nat) : Nat :=
  match fmt.read x, fmt.read y with
  | .nan, _ | _, .nan => fmt.quietNaN
  | .infinite a, .infinite b => if a = b then x else fmt.quietNaN
  | .infinite _, .finite .. => x
  | .finite .., .infinite _ => y
  | .finite a m q, .finite b n r =>
    let unit := min q r
    fmt.roundSigned (a && b) (inUnits a m q unit + inUnits b n r unit) unit

def negate (x : Nat) : Nat :=
  if fmt.signBit ≤ x then x - fmt.signBit else x + fmt.signBit

def subtract (x y : Nat) : Nat := fmt.add x (fmt.negate y)

def multiply (x y : Nat) : Nat :=
  match fmt.read x, fmt.read y with
  | .nan, _ | _, .nan => fmt.quietNaN
  | .infinite a, .infinite b => fmt.withSign (a != b) fmt.infinity
  | .infinite a, .finite b n _ =>
    if n = 0 then fmt.quietNaN else fmt.withSign (a != b) fmt.infinity
  | .finite a m _, .infinite b =>
    if m = 0 then fmt.quietNaN else fmt.withSign (a != b) fmt.infinity
  | .finite a m q, .finite b n r => fmt.roundScaled (a != b) (m * n) (q + r)

def divide (x y : Nat) : Nat :=
  match fmt.read x, fmt.read y with
  | .nan, _ | _, .nan => fmt.quietNaN
  | .infinite _, .infinite _ => fmt.quietNaN
  | .infinite a, .finite b _ _ => fmt.withSign (a != b) fmt.infinity
  | .finite a _ _, .infinite b => fmt.withSign (a != b) 0
  | .finite a m q, .finite b n r =>
    if n = 0 then
      if m = 0 then fmt.quietNaN else fmt.withSign (a != b) fmt.infinity
    else if r ≤ q then fmt.round (a != b) (m * 2 ^ (q - r).toNat) n
    else fmt.round (a != b) m (n * 2 ^ (r - q).toNat)

def integerSqrtFrom (fuel n guess : Nat) : Nat :=
  match fuel with
  | 0 => guess
  | fuel + 1 =>
    let next := (guess + n / guess) / 2
    if next < guess then integerSqrtFrom fuel n next else guess

def integerSqrt (n : Nat) : Nat :=
  if n = 0 then 0 else integerSqrtFrom (n.log2 + 2) n (2 ^ (n.log2 / 2 + 1))

-- The square root. The root of an inexact square is cut below the last rounded place and
-- marked by one more unit, so that it still rounds as the exact root does.
def sqrt (x : Nat) : Nat :=
  match fmt.read x with
  | .nan => fmt.quietNaN
  | .infinite negative => if negative then fmt.quietNaN else x
  | .finite negative m q =>
    if m = 0 then x
    else if negative then fmt.quietNaN
    else
      let extra := 2 * (fmt.fraction + 4) + (if q % 2 = 0 then 0 else 1)
      let square := m * 2 ^ extra
      let root := integerSqrt square
      let marked := 2 * root + (if root * root = square then 0 else 1)
      fmt.roundScaled false marked ((q - (extra : Int)) / 2 - 1)

def order (x y : Nat) : Option Ordering :=
  match fmt.read x, fmt.read y with
  | .nan, _ | _, .nan => none
  | .infinite a, .infinite b =>
    some (if a = b then .eq else if a then .lt else .gt)
  | .infinite a, .finite .. => some (if a then .lt else .gt)
  | .finite .., .infinite b => some (if b then .gt else .lt)
  | .finite a m q, .finite b n r =>
    let unit := min q r
    some (compare (inUnits a m q unit) (inUnits b n r unit))

end BinaryFormat

end SoftPlc.Numeric
