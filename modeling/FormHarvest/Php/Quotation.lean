import FormHarvest.Decimal.Numeral
import FormHarvest.Text.CodePoint

namespace FormHarvest

/-- The value of the text between single quotes. A backslash escapes itself and the quote; a NUL
stands for a backslash. -/
def singleQuotedValue : List Char → List Char
  | '\\' :: '\\' :: rest => '\\' :: singleQuotedValue rest
  | '\\' :: '\'' :: rest => '\'' :: singleQuotedValue rest
  | c :: rest => (if c == '\x00' then '\\' else c) :: singleQuotedValue rest
  | [] => []

/-- An escape by code point names a number that does not fit 32 bits. -/
inductive EscapeFault where
  | codePointOverflow
deriving DecidableEq

/-- The code point of the number that an escape names, surrogates among them; none when there is no
such code point. -/
def escapedCodePoint? (n : Int) : Except EscapeFault (Option Nat) :=
  if n < -0x80000000 ∨ 0x7FFFFFFF < n then .error .codePointOverflow
  else if n < 0 ∨ 0x10FFFF < n then .ok none
  else .ok (some n.toNat)

/-- The escapes of one letter. -/
def letterEscape? (c : Char) : Option Char :=
  match c with
  | 'n' => some '\n'
  | 't' => some '\t'
  | 'r' => some '\r'
  | 'v' => some '\x0b'
  | 'e' => some '\x1b'
  | 'f' => some '\x0c'
  | '\\' => some '\\'
  | '$' => some '$'
  | '"' => some '"'
  | _ => none

def isOctal (c : Char) : Bool := '0' ≤ c && c ≤ '7'

def isHex (c : Char) : Bool := (hexValue? c).isSome

/-- The number that digits up to f write in a base. -/
def digitsValue (base : Nat) (digits : List Char) : Nat :=
  digits.foldl (fun n c => n * base + (hexValue? c).getD 0) 0

/-- The escape by code point that starts with the letter u, if there is one: its code point and how
many characters it takes. -/
def codePointEscape? : List Char → Except EscapeFault (Option (Nat × Nat))
  | 'u' :: '{' :: rest =>
    let digits := rest.takeWhile (· != '}')
    if digits.length = rest.length then .ok none
    else
      match readHexInteger? digits with
      | none => .ok none
      | some n => (escapedCodePoint? n).map fun code? => code?.map fun code => (code, digits.length + 3)
  | _ => .ok none

/-- The escape by hexadecimal digits, of a letter, or by octal digits: its code point and how many
characters it takes after the backslash. Two octal digits after a zero belong to the zero. -/
def plainEscape? : List Char → Option (Nat × Nat)
  | [] => none
  | c :: rest =>
    let hex := (rest.take 2).takeWhile isHex
    let octal := ((c :: rest).take 3).takeWhile isOctal
    if c == 'x' && !hex.isEmpty then some (digitsValue 16 hex, hex.length + 1)
    else
      match letterEscape? c with
      | some d => some (d.toNat, 1)
      | none =>
        if c == '0' && octal.length < 3 then some (0, 1)
        else if octal.isEmpty then none
        else some (digitsValue 8 octal % 256, octal.length)

/-- The escape after a backslash, if there is one. -/
def escapeAfter? (after : List Char) : Except EscapeFault (Option (Nat × Nat)) :=
  (codePointEscape? after).map fun found => found.or (plainEscape? after)

/-- The code points of the text between double quotes, skipping characters that an escape has taken. A
backslash that starts no escape stands for itself. -/
def doubleQuotedFrom : Nat → List Char → Except EscapeFault (List Nat)
  | _, [] => .ok []
  | skip + 1, _ :: rest => doubleQuotedFrom skip rest
  | 0, c :: rest =>
    if c == '\\' then
      match escapeAfter? rest with
      | .error fault => .error fault
      | .ok (some (code, taken)) => (doubleQuotedFrom taken rest).map (code :: ·)
      | .ok none => (doubleQuotedFrom 0 rest).map (c.toNat :: ·)
    else (doubleQuotedFrom 0 rest).map (c.toNat :: ·)

/-- The code points of the text between double quotes. -/
def doubleQuotedCodes (body : List Char) : Except EscapeFault (List Nat) := doubleQuotedFrom 0 body

/-- The value of the text between double quotes. -/
def doubleQuotedValue (body : List Char) : Except EscapeFault (List Char) :=
  (doubleQuotedCodes body).map (List.map characterOf)

/-- Whether a variable or an expression starts here. -/
def startsInterpolation : List Char → Bool
  | '$' :: c :: _ => c.isAlpha || c == '_' || c == '{'
  | '{' :: '$' :: _ => true
  | _ => false

/-- Whether a text between double quotes names a variable or an expression somewhere other than
right after a backslash. -/
def interpolatesAfter (backslash : Bool) : List Char → Bool
  | [] => false
  | c :: rest => (!backslash && startsInterpolation (c :: rest)) || interpolatesAfter (c == '\\') rest

def interpolates (body : List Char) : Bool := interpolatesAfter false body

end FormHarvest
