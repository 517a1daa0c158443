import FormHarvest.Decimal.Double

namespace FormHarvest

/-- A decimal number `digits * 10 ^ exponent`. -/
structure ShortDecimal where
  digits : Nat
  exponent : Int
deriving DecidableEq

/-- The reals that round to a positive finite number, in exact terms: the number is
`middle / 4` units, the ends are `low / 4` and `high / 4` units, and a unit is `unitNum / unitDen`.
The ends belong to the set when the significand is even. -/
structure RoundingRange where
  low : Nat
  middle : Nat
  high : Nat
  unitNum : Nat
  unitDen : Nat
  closed : Bool

namespace Double

/-- The rounding range of a positive finite number. Below a power of two the next number is only
half as far away. -/
def roundingRange (x : Double) : RoundingRange :=
  let m := x.significand
  let s := x.scale
  { low := if m = twoTo 52 ∧ 0 < s then 4 * m - 1 else 4 * m - 2
    middle := 4 * m
    high := 4 * m + 2
    unitNum := twoTo (s - 1074)
    unitDen := 4 * twoTo (1074 - s)
    closed := m % 2 = 0 }

end Double

namespace RoundingRange

/-- The multiples of `10 ^ exponent` next to the middle that lie in the range: the nearer one when
both do, the even one when they are equally near. -/
def hit? (range : RoundingRange) (exponent : Int) : Option Nat :=
  let num := range.unitNum * tenTo (-exponent).toNat
  let den := range.unitDen * tenTo exponent.toNat
  let below := range.middle * num / den
  let inside (n : Nat) : Bool :=
    if range.closed then range.low * num ≤ n * den && n * den ≤ range.high * num
    else range.low * num < n * den && n * den < range.high * num
  let gapBelow := range.middle * num - below * den
  let gapAbove := (below + 1) * den - range.middle * num
  match inside below, inside (below + 1) with
  | true, true =>
    if gapBelow < gapAbove ∨ (gapBelow = gapAbove ∧ below % 2 = 0) then some below
    else some (below + 1)
  | true, false => some below
  | false, true => some (below + 1)
  | false, false => none

/-- The first hit on ever finer decimal grids. -/
def firstHit (range : RoundingRange) : Nat → Int → ShortDecimal
  | 0, exponent => ⟨0, exponent⟩
  | tries + 1, exponent =>
    match range.hit? exponent with
    | some n => ⟨n, exponent⟩
    | none => range.firstHit tries (exponent - 1)

end RoundingRange

namespace Double

/-- A power of ten above the number. -/
def decimalCeiling (x : Double) : Int :=
  (((x.significand.log2 + x.scale : Nat) : Int) - 1073) * 30103 / 100000 + 1

/-- The shortest decimal that reads back as a positive finite number, and of those the nearest. -/
def shortest (x : Double) : ShortDecimal :=
  x.roundingRange.firstHit 24 x.decimalCeiling

end Double

/-- How a decimal is laid out. The point position counts the digits before the decimal point;
numbers whose position lies in the closed range from `least` to `most` are written without an
exponent. -/
structure DecimalLayout where
  least : Int
  most : Int

/-- A decimal in the given layout. A number without an exponent always shows a fraction; an
exponent has a sign and at least two digits. -/
def ShortDecimal.text (layout : DecimalLayout) (d : ShortDecimal) : String :=
  let ds := Nat.toDigits 10 d.digits
  let point : Int := ds.length + d.exponent
  if point < layout.least ∨ layout.most < point then
    let e := point - 1
    let eDigits := Nat.toDigits 10 e.natAbs
    let eText := (if e < 0 then '-' else '+') :: (if eDigits.length < 2 then '0' :: eDigits else eDigits)
    String.ofList (ds.take 1 ++ (if ds.length ≤ 1 then [] else '.' :: ds.drop 1) ++ 'e' :: eText)
  else if point ≤ 0 then
    String.ofList ('0' :: '.' :: List.replicate (-point).toNat '0' ++ ds)
  else if ds.length ≤ point then
    String.ofList (ds ++ List.replicate (point - ds.length).toNat '0' ++ ['.', '0'])
  else
    String.ofList (ds.take point.toNat ++ '.' :: ds.drop point.toNat)

/-- Numbers are written without an exponent from 0.0001 to below 10 to the 16. -/
def numberLayout : DecimalLayout := ⟨-3, 16⟩

/-- The text of a number with the given words for what is not finite. -/
def Double.textWith (infinityWord nanWord : String) (x : Double) : String :=
  let sign := if x.isNegative then "-" else ""
  if x.isNaN then nanWord
  else if x.isInfinite then sign ++ infinityWord
  else if x.isZero then sign ++ "0.0"
  else sign ++ x.shortest.text numberLayout

/-- The text of a number. -/
def Double.text : Double → String := Double.textWith "inf" "nan"

end FormHarvest
