import SoftPlc.Numeric.Binary

set_option autoImplicit false

namespace SoftPlc.Numeric

structure Decimal where
  digits : Nat
  exponent : Int
deriving DecidableEq, Repr

-- The numbers that round to one binary number: `value`, the ends `low` and `high` and
-- whether the ends belong to it, all over the common denominator `den`.
structure RoundingInterval where
  value : Nat
  low : Nat
  high : Nat
  den : Nat
  closed : Bool
deriving DecidableEq, Repr

namespace RoundingInterval

-- The interval around `magnitude * 2 ^ scale`. The gap below a power of two is half the gap
-- above it, which `narrowBelow` says.
def around (magnitude : Nat) (scale : Int) (narrowBelow : Bool) : RoundingInterval :=
  let factor := 2 ^ (scale - 2).toNat
  { value := 4 * magnitude * factor
    low := (4 * magnitude - (if narrowBelow then 1 else 2)) * factor
    high := (4 * magnitude + 2) * factor
    den := 2 ^ (2 - scale).toNat
    closed := magnitude % 2 = 0 }

variable (interval : RoundingInterval)

def onGrid (grid : Int) (units bound : Nat) : Nat × Nat :=
  if 0 ≤ grid then (units * 10 ^ grid.toNat * interval.den, bound)
  else (units * interval.den, bound * 10 ^ (-grid).toNat)

def contains (grid : Int) (units : Nat) : Bool :=
  let (point, low) := interval.onGrid grid units interval.low
  let (_, high) := interval.onGrid grid units interval.high
  if interval.closed then low ≤ point && point ≤ high else low < point && point < high

def upperIsNearer (grid : Int) (units : Nat) : Bool :=
  let (below, value) := interval.onGrid grid units interval.value
  let (above, _) := interval.onGrid grid (units + 1) interval.value
  above - value ≤ value - below

def unitsBelow (grid : Int) : Nat :=
  if 0 ≤ grid then interval.value / (interval.den * 10 ^ grid.toNat)
  else interval.value * 10 ^ (-grid).toNat / interval.den

def onGrid? (grid : Int) : Option Nat :=
  let units := interval.unitsBelow grid
  match interval.contains grid units, interval.contains grid (units + 1) with
  | true, true => some (if interval.upperIsNearer grid units then units + 1 else units)
  | true, false => some units
  | false, true => some (units + 1)
  | false, false => none

def coarsest (fuel : Nat) (grid : Int) : Decimal :=
  match fuel with
  | 0 => ⟨interval.unitsBelow grid, grid⟩
  | fuel + 1 =>
    match interval.onGrid? grid with
    | some units => ⟨units, grid⟩
    | none => coarsest fuel (grid - 1)

def gridAbove : Int :=
  ((interval.value.log2 : Int) - (interval.den.log2 : Int) + 1) * 30103 / 100000 + 2

def shortest : Decimal :=
  interval.coarsest 40 interval.gridAbove

end RoundingInterval

namespace Decimal

def digitText (d : Decimal) : List Char :=
  Nat.toDigits 10 d.digits

def pointPlace (d : Decimal) : Int :=
  (d.digitText.length : Int) + d.exponent

def zeros (count : Nat) : List Char :=
  List.replicate count '0'

def positional (d : Decimal) : List Char :=
  let digits := d.digitText
  let place := d.pointPlace
  if place ≤ 0 then '0' :: '.' :: zeros (-place).toNat ++ digits
  else if place < digits.length then
    digits.take place.toNat ++ '.' :: digits.drop place.toNat
  else digits ++ zeros (place - digits.length).toNat ++ ['.', '0']

def scientific (d : Decimal) : List Char :=
  let significand := match d.digitText with
    | [] => []
    | [c] => [c]
    | c :: rest => c :: '.' :: rest
  significand ++ 'e' :: (toString (d.pointPlace - 1)).toList

def render (d : Decimal) : List Char :=
  let first := d.pointPlace - 1
  if -4 ≤ first ∧ first < 16 then d.positional else d.scientific

end Decimal

def BinaryFormat.render (fmt : BinaryFormat) (pattern : Nat) : String :=
  let signed (negative : Bool) (text : List Char) : String :=
    String.ofList (if negative then '-' :: text else text)
  match fmt.read pattern with
  | .nan => "NaN"
  | .infinite negative => signed negative ['i', 'n', 'f']
  | .finite negative magnitude scale =>
    if magnitude = 0 then signed negative ['0', '.', '0']
    else
      let narrow := decide (magnitude = 2 ^ fmt.fraction ∧ fmt.lowest < scale)
      signed negative (RoundingInterval.around magnitude scale narrow).shortest.render

end SoftPlc.Numeric
