namespace FormHarvest

/-- What stands at the start of bytes that should be UTF-8: a character and the number of bytes it
takes, or the number of bytes at the start that belong to no character. -/
inductive Utf8Step where
  | char (c : Char) (size : Nat)
  | invalid (size : Nat)
deriving DecidableEq

namespace Utf8Step

/-- Whether a byte continues a character. -/
def continues (byte : UInt8) : Bool := 0x80 ≤ byte && byte ≤ 0xBF

/-- The bytes that may come second after a leading byte. -/
def mayFollow (lead second : UInt8) : Bool :=
  if lead == 0xE0 then 0xA0 ≤ second && second ≤ 0xBF
  else if lead == 0xED then 0x80 ≤ second && second ≤ 0x9F
  else if lead == 0xF0 then 0x90 ≤ second && second ≤ 0xBF
  else if lead == 0xF4 then 0x80 ≤ second && second ≤ 0x8F
  else continues second

/-- How many bytes a character has by its leading byte; none when no character starts with it. -/
def sizeOf? (lead : UInt8) : Option Nat :=
  if lead ≤ 0x7F then some 1
  else if 0xC2 ≤ lead && lead ≤ 0xDF then some 2
  else if 0xE0 ≤ lead && lead ≤ 0xEF then some 3
  else if 0xF0 ≤ lead && lead ≤ 0xF4 then some 4
  else none

/-- How many bytes of a character are there after its leading byte. -/
def goodAfter (lead : UInt8) (size : Nat) (rest : List UInt8) : Nat :=
  match rest with
  | [] => 0
  | second :: more =>
    if size ≤ 1 then 0
    else if mayFollow lead second then 1 + ((more.take (size - 2)).takeWhile continues).length
    else 0

/-- The code point of a character from its bytes. -/
def codePoint (lead : UInt8) (rest : List UInt8) : Nat :=
  let mask : Nat := match rest.length with
    | 0 => 0x80
    | 1 => 0x20
    | 2 => 0x10
    | _ => 0x08
  rest.foldl (fun n byte => n * 64 + byte.toNat % 64) (lead.toNat % mask)

/-- The step at bytes that start with `lead`. -/
def ofBytes (lead : UInt8) (rest : List UInt8) : Utf8Step :=
  match sizeOf? lead with
  | none => invalid 1
  | some size =>
    let good := goodAfter lead size rest
    if good + 1 == size then char (Char.ofNat (codePoint lead (rest.take good))) size
    else invalid (good + 1)

end Utf8Step

/-- Why bytes are no UTF-8: `position` bytes before the fault are. -/
structure Utf8Fault where
  position : Nat
deriving DecidableEq

/-- The text of bytes that are UTF-8, given the number of bytes before them. -/
def decodeUtf8From (position : Nat) (bytes : List UInt8) : Except Utf8Fault (List Char) :=
  match bytes with
  | [] => .ok []
  | lead :: rest =>
    match Utf8Step.ofBytes lead rest with
    | .invalid _ => .error ⟨position⟩
    | .char c size => (decodeUtf8From (position + size) (rest.drop (size - 1))).map (c :: ·)
termination_by bytes.length
decreasing_by simp only [List.length_drop, List.length_cons]; omega

/-- The text of bytes that are UTF-8. -/
def decodeUtf8 (bytes : List UInt8) : Except Utf8Fault (List Char) := decodeUtf8From 0 bytes

/-- The replacement for what is no character. -/
def replacementChar : Char := '\uFFFD'

/-- The text of bytes, with one replacement for each run of bytes that could have begun a
character. -/
def decodeUtf8Lossy (bytes : List UInt8) : List Char :=
  match bytes with
  | [] => []
  | lead :: rest =>
    match Utf8Step.ofBytes lead rest with
    | .invalid size => replacementChar :: decodeUtf8Lossy (rest.drop (size - 1))
    | .char c size => c :: decodeUtf8Lossy (rest.drop (size - 1))
termination_by bytes.length
decreasing_by all_goals simp only [List.length_drop, List.length_cons]; omega

end FormHarvest
