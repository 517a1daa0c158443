namespace FormHarvest

/-- A power of two. -/
def twoTo (exponent : Nat) : Nat := Nat.pow 2 exponent

/-- A power of ten. -/
def tenTo (exponent : Nat) : Nat := Nat.pow 10 exponent

/-- A binary floating point number of 64 bits: sign, eleven exponent bits, 52 fraction bits. -/
structure Double where
  bits : UInt64
deriving DecidableEq

namespace Double

/-- The bits of positive infinity. -/
def infinityBits : Nat := 0x7ff0000000000000

def isNegative (x : Double) : Bool := 0x8000000000000000 ≤ x.bits.toNat

/-- The bits without the sign. -/
def magnitude (x : Double) : Nat := x.bits.toNat % 0x8000000000000000

def isInfinite (x : Double) : Bool := x.magnitude == infinityBits

def isNaN (x : Double) : Bool := infinityBits < x.magnitude

def isZero (x : Double) : Bool := x.magnitude == 0

/-- The number with the other sign, zero and infinity included. -/
def negate (x : Double) : Double := ⟨x.bits ^^^ 0x8000000000000000⟩

def infinity : Double := ⟨infinityBits.toUInt64⟩

def nan : Double := ⟨0x7ff8000000000000⟩

/-- The whole number `significand` with which a finite number is `significand * 2 ^ (scale - 1074)`. -/
def significand (x : Double) : Nat :=
  if x.magnitude < twoTo 52 then x.magnitude else x.magnitude % twoTo 52 + twoTo 52

/-- The power of two of a finite number, counted from the least one. -/
def scale (x : Double) : Nat :=
  if x.magnitude < twoTo 52 then 0 else x.magnitude / twoTo 52 - 1

/-- How many units of the least positive number a one has. -/
def unitsInOne : Nat := twoTo 1074

/-- The magnitude of a finite number in units of the least positive one. -/
def units (x : Double) : Nat := x.significand * twoTo x.scale

/-- A quotient rounded to the nearest whole number, half-way cases to the even one. -/
def roundedQuotient (num den : Nat) : Nat :=
  let whole := num / den
  let twice := 2 * (num % den)
  if den < twice ∨ (twice = den ∧ whole % 2 = 1) then whole + 1 else whole

/-- The quotient `num / den` in units of `2 ^ (scale - 1074)`, as numerator and denominator. -/
def inUnits (num den scale : Nat) : Nat × Nat :=
  if scale ≤ 1074 then (num * twoTo (1074 - scale), den) else (num, den * twoTo (scale - 1074))

/-- The scale at which a positive quotient takes 53 bits, or the least one when it is too small. -/
def scaleFor (num den : Nat) : Nat :=
  let guess := num.log2 + 1022 - den.log2
  let (n, d) := inUnits num den guess
  if n < twoTo 52 * d then guess - 1 else guess

/-- The bits of the number nearest to a positive quotient; infinity when it is beyond all. -/
def nearestBits (num den : Nat) : Nat :=
  let scale := scaleFor num den
  let (n, d) := inUnits num den scale
  min (scale * twoTo 52 + roundedQuotient n d) infinityBits

/-- The number nearest to a quotient of naturals, with a sign. -/
def ofRatio (negative : Bool) (num den : Nat) : Double :=
  let bits := if num = 0 then 0 else nearestBits num den
  ⟨(if negative then bits + 0x8000000000000000 else bits).toUInt64⟩

/-- The number nearest to `digits * 10 ^ exponent`. A magnitude far outside the range is decided
by its number of digits alone. -/
def ofDecimal (negative : Bool) (digits : Nat) (exponent : Int) : Double :=
  let length : Int := (digits.log2 * 30103 / 100000 : Nat)
  if digits = 0 ∨ length + exponent < -400 then ofRatio negative 0 1
  else if 400 < length + exponent then
    if negative then infinity.negate else infinity
  else if exponent < 0 then ofRatio negative digits (tenTo (-exponent).toNat)
  else ofRatio negative (digits * tenTo exponent.toNat) 1

/-- Sixteen hexadecimal digits of the bits, most significant first. -/
def toHex (x : Double) : String :=
  let digits := Nat.toDigits 16 x.bits.toNat
  String.ofList (List.replicate (16 - digits.length) '0' ++ digits)

theorem negate_negate (x : Double) : x.negate.negate = x := by
  simp only [negate, UInt64.xor_assoc, UInt64.xor_self, UInt64.xor_zero]

end Double

end FormHarvest
