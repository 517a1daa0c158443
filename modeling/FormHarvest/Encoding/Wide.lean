import FormHarvest.Encoding.Utf8

namespace FormHarvest

/-- Which byte of a number comes first. -/
inductive ByteOrder where
  | littleEndian
  | bigEndian
deriving DecidableEq

/-- The number that bytes stand for. -/
def ByteOrder.number (order : ByteOrder) (bytes : List UInt8) : Nat :=
  match order with
  | littleEndian => bytes.foldr (fun byte n => n * 256 + byte.toNat) 0
  | bigEndian => bytes.foldl (fun n byte => n * 256 + byte.toNat) 0

def isHighSurrogate (unit : Nat) : Bool := 0xD800 ≤ unit && unit ≤ 0xDBFF

def isLowSurrogate (unit : Nat) : Bool := 0xDC00 ≤ unit && unit ≤ 0xDFFF

/-- The character of two surrogates. -/
def pairedSurrogates (high low : Nat) : Char :=
  Char.ofNat (0x10000 + (high - 0xD800) * 0x400 + (low - 0xDC00))

/-- The text of UTF-16 units, with a replacement for each unit that belongs to no character and one
for an incomplete end. -/
def decodeUtf16 (order : ByteOrder) : List UInt8 → List Char
  | [] => []
  | [_] => [replacementChar]
  | a :: b :: rest =>
    let unit := order.number [a, b]
    if isHighSurrogate unit then
      match rest with
      | c :: d :: more =>
        let low := order.number [c, d]
        if isLowSurrogate low then pairedSurrogates unit low :: decodeUtf16 order more
        else replacementChar :: decodeUtf16 order (c :: d :: more)
      | _ => [replacementChar]
    else if isLowSurrogate unit then replacementChar :: decodeUtf16 order rest
    else Char.ofNat unit :: decodeUtf16 order rest
termination_by bytes => bytes.length
decreasing_by all_goals simp only [List.length_cons]; omega

/-- The text of UTF-32 units, with a replacement for each unit that is no character and one for an
incomplete end. -/
def decodeUtf32 (order : ByteOrder) : List UInt8 → List Char
  | a :: b :: c :: d :: rest =>
    let unit := order.number [a, b, c, d]
    (if unit.isValidChar then Char.ofNat unit else replacementChar) :: decodeUtf32 order rest
  | [] => []
  | _ => [replacementChar]

end FormHarvest
