/-!
# Shortest decimals

The fewest decimal digits that identify a finite binary64 value.
-/

namespace AdaptiveEval.Decimal

/-- The magnitude `significand * 2 ^ exponent` of a finite binary64 value. -/
structure Binary where
  significand : Nat
  exponent : Int
  /-- The gap to the value below is half the gap to the value above. -/
  narrowBelow : Bool
  deriving DecidableEq

/-- The decimal `digits * 10 ^ exponent`. -/
structure Scaled where
  digits : Nat
  exponent : Int
  deriving DecidableEq

def powerOfTen (places : Nat) : Nat :=
  Nat.pow 10 places

def fractionCount : Nat := 1 <<< 52

def fieldCount : Nat := 1 <<< 11

/-- Reads the magnitude off the bits; the caller excludes infinities and NaN. -/
def Binary.ofBits (bits : UInt64) : Binary :=
  let fraction : Nat := bits.toNat % fractionCount
  let field : Nat := bits.toNat / fractionCount % fieldCount
  if field = 0 then
    { significand := fraction, exponent := -1074, narrowBelow := false }
  else
    { significand := fractionCount + fraction
      exponent := (field : Int) - 1075
      narrowBelow := fraction == 0 && decide (1 < field) }

/-- Compares `digits * 10 ^ power` with `count * 2 ^ exponent` exactly. -/
def compareScaled (digits : Nat) (power : Int) (count : Nat) (exponent : Int) : Ordering :=
  compare ((digits * powerOfTen power.toNat) <<< (-exponent).toNat)
    ((count <<< exponent.toNat) * powerOfTen (-power).toNat)

/-- The decimal lies among the reals that round to the value; the ends of that interval belong
to it exactly when the significand is even. -/
def Binary.readsBack (value : Binary) (decimal : Scaled) : Bool :=
  let below := if value.narrowBelow then 4 * value.significand - 1 else 4 * value.significand - 2
  let above := 4 * value.significand + 2
  let inclusive := value.significand % 2 == 0
  let fromBelow := compareScaled decimal.digits decimal.exponent below (value.exponent - 2)
  let fromAbove := compareScaled decimal.digits decimal.exponent above (value.exponent - 2)
  (fromBelow == .gt || (inclusive && fromBelow == .eq)) &&
    (fromAbove == .lt || (inclusive && fromAbove == .eq))

def Binary.numerator (value : Binary) : Nat :=
  value.significand <<< value.exponent.toNat

def Binary.denominator (value : Binary) : Nat :=
  1 <<< (-value.exponent).toNat

def digitCount (number : Nat) : Nat :=
  (Nat.toDigits 10 number).length

/-- The least power of ten above a positive value. -/
def Binary.scale (value : Binary) : Int :=
  let estimate := (digitCount value.numerator : Int) - digitCount value.denominator
  if value.numerator * powerOfTen (-estimate).toNat <
      value.denominator * powerOfTen estimate.toNat then
    estimate
  else
    estimate + 1

/-- The nearer of the two neighbours on the grid `10 ^ power` that read back; the upper one wins
an exact tie. -/
def Binary.onGrid (value : Binary) (power : Int) : Option Scaled :=
  let numerator := value.numerator * powerOfTen (-power).toNat
  let denominator := value.denominator * powerOfTen power.toNat
  let lower : Scaled := { digits := numerator / denominator, exponent := power }
  let upper : Scaled := { digits := numerator / denominator + 1, exponent := power }
  match value.readsBack lower, value.readsBack upper with
  | false, false => none
  | true, false => some lower
  | false, true => some upper
  | true, true => some (if 2 * (numerator % denominator) < denominator then lower else upper)

/-- Moves up to `count` trailing zeros of the digits into the exponent. -/
def Scaled.strip : Nat → Scaled → Scaled
  | 0, decimal => decimal
  | count + 1, decimal =>
      if decimal.digits % 10 = 0 then
        strip count { digits := decimal.digits / 10, exponent := decimal.exponent + 1 }
      else
        decimal

def Binary.expansion (value : Binary) : Scaled :=
  { digits := value.numerator * Nat.pow 5 (-value.exponent).toNat
    exponent := min value.exponent 0 }

/-- The decimal with the fewest digits that reads back, nearest to the value among those. -/
def Binary.shortest (value : Binary) : Scaled :=
  let found := (List.range 17).findSome? fun (index : Nat) =>
    value.onGrid (value.scale - ((index : Int) + 1))
  let decimal := found.getD value.expansion
  decimal.strip (digitCount decimal.digits - 1)

end AdaptiveEval.Decimal
