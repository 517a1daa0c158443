import FormHarvest.Decimal.Double
import FormHarvest.Text.Blank
import FormHarvest.Text.Digit

namespace FormHarvest

/-- The value of a digit in a base of at most sixteen: decimal digits of any script and the
letters a to f. -/
def digitIn? (base : Nat) (c : Char) : Option Nat :=
  ((decimalValue? c).or (hexValue? c)).filter (· < base)

/-- Digits with single underscores between them, continuing a value. -/
def digitsFrom (base value : Nat) : List Char → Option Nat
  | [] => some value
  | '_' :: c :: rest =>
    match digitIn? base c with
    | some d => digitsFrom base (value * base + d) rest
    | none => none
  | c :: rest =>
    match digitIn? base c with
    | some d => digitsFrom base (value * base + d) rest
    | none => none

/-- One or more digits with single underscores between them. -/
def readDigits? (base : Nat) : List Char → Option Nat
  | [] => none
  | c :: rest =>
    match digitIn? base c with
    | some d => digitsFrom base d rest
    | none => none

/-- Hexadecimal digits after an optional mark of the base, a zero of any script and an x, and one
underscore after the mark. -/
def readMarkedHex? (text : List Char) : Option Nat :=
  match text with
  | zero :: x :: rest =>
    if decimalValue? zero == some 0 && (x == 'x' || x == 'X') then
      match rest with
      | '_' :: digits => readDigits? 16 digits
      | digits => readDigits? 16 digits
    else readDigits? 16 text
  | digits => readDigits? 16 digits

/-- A whole number in base sixteen with optional surrounding blanks, sign and mark of the base. -/
def readHexInteger? (text : List Char) : Option Int :=
  match trimBoth isNumeralBlank text with
  | '-' :: rest => (readMarkedHex? rest).map fun n => -(n : Int)
  | '+' :: rest => (readMarkedHex? rest).map fun n => (n : Int)
  | rest => (readMarkedHex? rest).map fun n => (n : Int)

/-- The longest whole number in base ten that is read. -/
def maxDecimalDigits : Nat := 4300

/-- A whole number in base ten; longer ones than the limit are refused. -/
def readDecimal? (text : List Char) : Option Nat :=
  if maxDecimalDigits < (text.filter (· != '_')).length then none else readDigits? 10 text

/-- A fraction in base ten with an optional exponent after the letter e: plain digits of any
script, at least one before the exponent. -/
def readFraction? (text : List Char) : Option Double :=
  let mantissa := text.takeWhile fun c => c != 'e' && c != 'E'
  let exponent := text.drop (mantissa.length + 1)
  let whole := mantissa.takeWhile (· != '.')
  let fraction := mantissa.drop (whole.length + 1)
  let exponentValue : Option Int :=
    if mantissa.length = text.length then some 0
    else
      match exponent with
      | '-' :: digits => (readDigits? 10 digits).map fun n => -(n : Int)
      | '+' :: digits => (readDigits? 10 digits).map fun n => (n : Int)
      | digits => (readDigits? 10 digits).map fun n => (n : Int)
  match readDigits? 10 (whole ++ fraction), exponentValue with
  | some digits, some e => some (Double.ofDecimal false digits (e - fraction.length))
  | _, _ => none

end FormHarvest
