import AdaptiveEval.Decimal.Shortest

/-!
# Float texts

Two ways to write a binary64 value with its shortest digits.
-/

namespace AdaptiveEval.Decimal

def Scaled.digitList (decimal : Scaled) : List Char :=
  Nat.toDigits 10 decimal.digits

def Scaled.magnitude (decimal : Scaled) : Int :=
  (decimal.digitList.length : Int) + decimal.exponent - 1

def zeros (count : Nat) : List Char :=
  List.replicate count '0'

/-- Positional digits without an exponent; an integral value shows no point. -/
def Scaled.positional (decimal : Scaled) : List Char :=
  let digits := decimal.digitList
  let places := (-decimal.exponent).toNat
  if places = 0 then
    digits ++ zeros decimal.exponent.toNat
  else if places < digits.length then
    digits.take (digits.length - places) ++ '.' :: digits.drop (digits.length - places)
  else
    '0' :: '.' :: zeros (places - digits.length) ++ digits

/-- One digit before the point, then the power of ten behind an `e`. -/
def Scaled.scientific (decimal : Scaled) : List Char :=
  let fraction := match decimal.digitList with
    | [] => []
    | [digit] => [digit]
    | digit :: rest => digit :: '.' :: rest
  fraction ++ 'e' :: (toString decimal.magnitude).toList

def negative (value : Float) : Bool :=
  value.toBits ≥ 0x8000000000000000

def signed (value : Float) (magnitude : List Char) : String :=
  String.ofList (if negative value then '-' :: magnitude else magnitude)

def shortestOf (value : Float) : Scaled :=
  let binary := Binary.ofBits value.toBits
  if binary.significand = 0 then { digits := 0, exponent := 0 } else binary.shortest

def withPoint (suffix digits : List Char) : List Char :=
  if digits.contains '.' then digits else digits ++ suffix

/-- The reading text of a float: positional, and ending in a bare point when integral. -/
def readingText (value : Float) : String :=
  if value.isNaN then "nan"
  else if value.isInf then signed value "inf".toList
  else signed value (withPoint ['.'] (shortestOf value).positional)

/-- The exact text of a float: positional with at least one decimal from `10 ^ -4` up to
`10 ^ 16`, scientific elsewhere. -/
def exactText (value : Float) : String :=
  if value.isNaN then "NaN"
  else if value.isInf then signed value "inf".toList
  else
    let decimal := shortestOf value
    if decimal.digits = 0 ∨ (-4 ≤ decimal.magnitude ∧ decimal.magnitude < 16) then
      signed value (withPoint ['.', '0'] decimal.positional)
    else
      signed value decimal.scientific

end AdaptiveEval.Decimal
