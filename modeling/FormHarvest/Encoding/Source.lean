import FormHarvest.Encoding.Wide

namespace FormHarvest

/-- What reads bytes in some encoding, with replacements for what belongs to no character. -/
abbrev Decoder := List UInt8 → List Char

/-- The text of bytes in UTF-8, without a byte order mark before it. -/
def decodeMarkedUtf8 : Decoder
  | 0xEF :: 0xBB :: 0xBF :: rest => decodeUtf8Lossy rest
  | bytes => decodeUtf8Lossy bytes

/-- The text of bytes in UTF-16, whose byte order mark tells which byte comes first. -/
def decodeMarkedUtf16 : Decoder
  | 0xFE :: 0xFF :: rest => decodeUtf16 .bigEndian rest
  | 0xFF :: 0xFE :: rest => decodeUtf16 .littleEndian rest
  | bytes => decodeUtf16 .littleEndian bytes

/-- The text of bytes in UTF-32, whose byte order mark tells which byte comes first. -/
def decodeMarkedUtf32 : Decoder
  | 0x00 :: 0x00 :: 0xFE :: 0xFF :: rest => decodeUtf32 .bigEndian rest
  | 0xFF :: 0xFE :: 0x00 :: 0x00 :: rest => decodeUtf32 .littleEndian rest
  | bytes => decodeUtf32 .littleEndian bytes

/-- What recognises the encoding of bytes that are no UTF-8: the name that it gives for them, if it
gives one, and how encodings are read that are not among the Unicode ones, by their names. -/
structure EncodingDetector where
  name? : List UInt8 → Option String
  further? : String → Option Decoder := fun _ => none

namespace EncodingDetector

/-- How an encoding is read; none when no encoding has the name. -/
def decoder? (detector : EncodingDetector) (name : String) : Option Decoder :=
  match name with
  | "utf-8" => some decodeUtf8Lossy
  | "UTF-8-SIG" => some decodeMarkedUtf8
  | "UTF-16" => some decodeMarkedUtf16
  | "UTF-32" => some decodeMarkedUtf32
  | _ => detector.further? name

/-- The text of bytes in the encoding that is recognised, or in UTF-8 when none is recognised or
none has the name. -/
def decode (detector : EncodingDetector) : Decoder := fun bytes =>
  match detector.name? bytes with
  | none | some "" => decodeUtf8Lossy bytes
  | some name => ((detector.decoder? name).getD decodeUtf8Lossy) bytes

/-- A detector that recognises byte order marks and nothing else. -/
def byMark : EncodingDetector where
  name?
    | 0xEF :: 0xBB :: 0xBF :: _ => some "UTF-8-SIG"
    | 0xFF :: 0xFE :: 0x00 :: 0x00 :: _ => some "UTF-32"
    | 0x00 :: 0x00 :: 0xFE :: 0xFF :: _ => some "UTF-32"
    | 0xFE :: 0xFF :: 0x00 :: 0x00 :: _ => some "X-ISO-10646-UCS-4-3412"
    | 0x00 :: 0x00 :: 0xFF :: 0xFE :: _ => some "X-ISO-10646-UCS-4-2143"
    | 0xFF :: 0xFE :: _ => some "UTF-16"
    | 0xFE :: 0xFF :: _ => some "UTF-16"
    | _ => none

end EncodingDetector

/-- The text of a source file: UTF-8, with or without a byte order mark, or else what the detector
makes of it. -/
def decodeSource (bytes : List UInt8) (detector : EncodingDetector := .byMark) : String :=
  String.ofList <|
    match decodeUtf8 bytes with
    | .ok ('\uFEFF' :: text) => text
    | .ok text => text
    | .error _ => detector.decode bytes

end FormHarvest
