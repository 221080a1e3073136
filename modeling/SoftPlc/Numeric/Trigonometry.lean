import SoftPlc.Numeric.Binary

/-!
Sine, cosine and tangent of binary numbers. The argument is reduced by multiples of a quarter
turn and the series summed in fixed point, with enough places that one final rounding gives
the nearest result for every argument of single precision.
-/
set_option autoImplicit false

namespace SoftPlc.Numeric.Trigonometry

def places : Nat := 448

def one : Int := (2 ^ places : Nat)

def arcTangentSum (fuel : Nat) (kSquared n : Nat) (power : Int) : Int :=
  match fuel with
  | 0 => 0
  | fuel + 1 => power / n - arcTangentSum fuel kSquared (n + 2) (power / kSquared)

def arcTangentInverse (k : Nat) : Int :=
  arcTangentSum places (k * k) 1 (one / k)

def quarterTurn : Int :=
  2 * (4 * arcTangentInverse 5 - arcTangentInverse 239)

def alternatingSum (fuel : Nat) (square term : Int) (n : Nat) : Int :=
  match fuel with
  | 0 => 0
  | fuel + 1 =>
    if term = 0 then 0
    else term - alternatingSum fuel square (term * square / one / (n * (n + 1) : Nat)) (n + 2)

def sineSeries (x : Int) : Int :=
  alternatingSum places (x * x / one) x 2

def cosineSeries (x : Int) : Int :=
  alternatingSum places (x * x / one) one 1

def sineCosine (angle : Int) : Int × Int :=
  let turns := (angle + quarterTurn / 2) / quarterTurn
  let rest := angle - turns * quarterTurn
  let sine := sineSeries rest
  let cosine := cosineSeries rest
  match (turns % 4).toNat with
  | 0 => (sine, cosine)
  | 1 => (cosine, -sine)
  | 2 => (-sine, -cosine)
  | _ => (-cosine, sine)

def angleOf (negative : Bool) (magnitude : Nat) (scale : Int) : Int :=
  BinaryFormat.inUnits negative magnitude scale (-(places : Int))

def evaluate (fmt : BinaryFormat) (zero : Bool → Nat) (ratio : Int × Int → Int × Int)
    (pattern : Nat) : Nat :=
  match fmt.read pattern with
  | .nan | .infinite _ => fmt.quietNaN
  | .finite negative magnitude scale =>
    if magnitude = 0 then zero negative
    else
      let (num, den) := ratio (sineCosine (angleOf negative magnitude scale))
      fmt.round (decide (num < 0) != decide (den < 0)) num.natAbs den.natAbs

def sine (fmt : BinaryFormat) : Nat → Nat :=
  evaluate fmt (fun negative => fmt.withSign negative 0) fun (s, _) => (s, one)

def cosine (fmt : BinaryFormat) : Nat → Nat :=
  evaluate fmt (fun _ => fmt.round false 1 1) fun (_, c) => (c, one)

def tangent (fmt : BinaryFormat) : Nat → Nat :=
  evaluate fmt (fun negative => fmt.withSign negative 0) fun (s, c) => (s, c)

end SoftPlc.Numeric.Trigonometry
