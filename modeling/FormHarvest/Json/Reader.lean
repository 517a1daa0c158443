import FormHarvest.Decimal.Numeral
import FormHarvest.Json.Basic
import FormHarvest.Text.CodePoint

namespace FormHarvest.Json

/-- The ways in which a text can fail to be JSON. -/
inductive Malformed where
  | expectingValue
  | expectingName
  | expectingColon
  | expectingComma
  | unterminatedText
  | controlCharacter
  | invalidEscape
  | invalidCodePoint
  | extraData
  | byteOrderMark
deriving DecidableEq

/-- Why a text could not be read. A malformed text is reported with the number of characters that
were left where the fault lies. -/
inductive ReadFault where
  | malformed (cause : Malformed) (left : Nat)
  | tooManyDigits
  | tooDeep
deriving DecidableEq

/-- The blanks that JSON allows between its parts. -/
def isGap (c : Char) : Bool := c == ' ' || c == '\t' || c == '\n' || c == '\r'

def skipGaps (text : List Char) : List Char := text.dropWhile isGap

/-- The code point of four hexadecimal digits. -/
def fourHex? : List Char → Option (Nat × List Char)
  | a :: b :: c :: d :: rest =>
    match hexValue? a, hexValue? b, hexValue? c, hexValue? d with
    | some a, some b, some c, some d => some (((a * 16 + b) * 16 + c) * 16 + d, rest)
    | _, _, _, _ => none
  | _ => none

/-- The short escapes. -/
def shortEscape? (c : Char) : Option Char :=
  match c with
  | '"' => some '"'
  | '\\' => some '\\'
  | '/' => some '/'
  | 'b' => some '\x08'
  | 'f' => some '\x0c'
  | 'n' => some '\n'
  | 'r' => some '\r'
  | 't' => some '\t'
  | _ => none

/-- The code point of an escape and what follows it, given the text after the letter u. A high
surrogate takes the low one after it along. -/
def codePointEscape (after : List Char) : Except ReadFault (Nat × List Char) :=
  if after.length ≤ 4 then .error (.malformed .invalidCodePoint (after.length + 1))
  else
    match fourHex? after with
    | none => .error (.malformed .invalidCodePoint (after.length + 1))
    | some (n, rest) =>
      if 0xD800 ≤ n && n ≤ 0xDBFF && 6 < rest.length then
        match rest with
        | '\\' :: 'u' :: second =>
          match fourHex? second with
          | none => .error (.malformed .invalidCodePoint (second.length + 1))
          | some (low, rest') =>
            if 0xDC00 ≤ low && low ≤ 0xDFFF then
              .ok (0x10000 + (n - 0xD800) * 0x400 + (low - 0xDC00), rest')
            else .ok (n, rest)
        | _ => .ok (n, rest)
      else .ok (n, rest)

/-- The rest of a string after its opening quote, of which `start` characters were left. Every
round takes at least one character of the text. -/
def readText (start : Nat) : Nat → List Char → List Char → Except ReadFault (String × List Char)
  | 0, _, _ => .error (.malformed .unterminatedText start)
  | _ + 1, _, [] => .error (.malformed .unterminatedText start)
  | rounds + 1, read, c :: rest =>
    if c == '"' then .ok (String.ofList read.reverse, rest)
    else if c.toNat < 32 then .error (.malformed .controlCharacter (rest.length + 1))
    else if c == '\\' then
      match rest with
      | [] => .error (.malformed .unterminatedText start)
      | 'u' :: after =>
        match codePointEscape after with
        | .error fault => .error fault
        | .ok (code, rest') => readText start rounds (characterOf code :: read) rest'
      | e :: after =>
        match shortEscape? e with
        | some d => readText start rounds (d :: read) after
        | none => .error (.malformed .invalidEscape (after.length + 2))
    else readText start rounds (c :: read) rest

/-- A number, given the text at its first character: digits without a leading zero, then an
optional fraction and an optional exponent. -/
def readNumber (text : List Char) : Except ReadFault (Json × List Char) :=
  let negative := text.head? == some '-'
  let digits := if negative then text.drop 1 else text
  let whole :=
    match digits with
    | '0' :: _ => ['0']
    | _ => digits.takeWhile Char.isDigit
  if whole.isEmpty then .error (.malformed .expectingValue text.length)
  else
    let afterWhole := digits.drop whole.length
    let fraction :=
      match afterWhole with
      | '.' :: more => more.takeWhile Char.isDigit
      | _ => []
    let afterFraction := if fraction.isEmpty then afterWhole else afterWhole.drop (fraction.length + 1)
    let (sign, exponent) :=
      match afterFraction with
      | e :: more =>
        if e == 'e' || e == 'E' then
          match more with
          | s :: digits =>
            if s == '+' || s == '-' then ([s], digits.takeWhile Char.isDigit)
            else ([], more.takeWhile Char.isDigit)
          | [] => ([], [])
        else ([], [])
      | [] => ([], [])
    let rest :=
      if exponent.isEmpty then afterFraction
      else afterFraction.drop (1 + sign.length + exponent.length)
    let value (ds : List Char) : Nat := (readDigits? 10 ds).getD 0
    if fraction.isEmpty && exponent.isEmpty then
      if maxDecimalDigits < whole.length then .error .tooManyDigits
      else .ok (.int (if negative then -(value whole : Int) else value whole), rest)
    else
      let e : Int := if sign == ['-'] then -(value exponent : Int) else value exponent
      .ok (.float (Double.ofDecimal negative (value (whole ++ fraction)) (e - fraction.length)), rest)

/-- The words for values that are no numbers, texts, lists or objects. -/
def namedValues : List (String × Json) :=
  [("null", .null), ("true", .bool true), ("false", .bool false), ("NaN", .float Double.nan),
   ("Infinity", .float Double.infinity), ("-Infinity", .float Double.infinity.negate)]

/-- The further items of a list, read one by one; `rounds` bounds their number. -/
def readItems (value : List Char → Except ReadFault (Json × List Char)) :
    Nat → List Json → List Char → Except ReadFault (Json × List Char)
  | 0, _, text => .error (.malformed .expectingValue text.length)
  | rounds + 1, read, text =>
    match value text with
    | .error fault => .error fault
    | .ok (item, rest) =>
      match skipGaps rest with
      | ']' :: after => .ok (.list (item :: read).reverse, after)
      | ',' :: after => readItems value rounds (item :: read) (skipGaps after)
      | other => .error (.malformed .expectingComma other.length)

/-- The further fields of an object, read one by one; a name that comes again takes the later
value. -/
def readFields (value : List Char → Except ReadFault (Json × List Char)) (limit : Nat) :
    Nat → List (String × Json) → List Char → Except ReadFault (Json × List Char)
  | 0, _, text => .error (.malformed .expectingName text.length)
  | rounds + 1, read, text =>
    match text with
    | '"' :: afterQuote =>
      match readText text.length limit [] afterQuote with
      | .error fault => .error fault
      | .ok (name, rest) =>
        match skipGaps rest with
        | ':' :: afterColon =>
          match value (skipGaps afterColon) with
          | .error fault => .error fault
          | .ok (item, rest') =>
            let read := setField name item read
            match skipGaps rest' with
            | '}' :: after => .ok (.object read, after)
            | ',' :: after => readFields value limit rounds read (skipGaps after)
            | other => .error (.malformed .expectingComma other.length)
        | other => .error (.malformed .expectingColon other.length)
    | _ => .error (.malformed .expectingName text.length)

/-- A value at the start of a text, with at most `depth` levels of lists and objects and at most
`limit` characters to read. -/
def readValue (limit : Nat) : Nat → List Char → Except ReadFault (Json × List Char)
  | depth, text =>
    match text with
    | '"' :: rest =>
      match readText text.length limit [] rest with
      | .error fault => .error fault
      | .ok (value, after) => .ok (.string value, after)
    | '[' :: rest =>
      match depth with
      | 0 => .error .tooDeep
      | depth + 1 =>
        match skipGaps rest with
        | ']' :: after => .ok (.list [], after)
        | items => readItems (readValue limit depth) limit [] items
    | '{' :: rest =>
      match depth with
      | 0 => .error .tooDeep
      | depth + 1 =>
        match skipGaps rest with
        | '}' :: after => .ok (.object [], after)
        | fields => readFields (readValue limit depth) limit limit [] fields
    | _ =>
      match namedValues.find? fun (name, _) => name.toList.isPrefixOf text with
      | some (name, value) => .ok (value, text.drop name.length)
      | none => readNumber text

/-- The deepest nesting of lists and objects that is read where nothing else is said. -/
def maxDepth : Nat := 990

/-- A text that is one JSON value, with blanks around it. Lists and objects are nested in `limit` levels
at most. -/
def read (text : List Char) (limit : Nat := maxDepth) : Except ReadFault Json :=
  match text with
  | '\uFEFF' :: _ => .error (.malformed .byteOrderMark text.length)
  | _ =>
    match readValue (text.length + 1) limit (skipGaps text) with
    | .error fault => .error fault
    | .ok (value, rest) =>
      match skipGaps rest with
      | [] => .ok value
      | other => .error (.malformed .extraData other.length)

/-- What is said about a fault, before its place. -/
def Malformed.message : Malformed → String
  | .expectingValue => "Expecting value"
  | .expectingName => "Expecting property name enclosed in double quotes"
  | .expectingColon => "Expecting ':' delimiter"
  | .expectingComma => "Expecting ',' delimiter"
  | .unterminatedText => "Unterminated string starting at"
  | .controlCharacter => "Invalid control character at"
  | .invalidEscape => "Invalid \\escape"
  | .invalidCodePoint => "Invalid \\uXXXX escape"
  | .extraData => "Extra data"
  | .byteOrderMark => "Unexpected UTF-8 BOM (decode using utf-8-sig)"

/-- A fault with its line and column, both from one, and its offset from zero. -/
def Malformed.describe (text : List Char) (cause : Malformed) (left : Nat) : String :=
  let offset := text.length - left
  let before := text.take offset
  let line := before.count '\n' + 1
  let column := (before.reverse.takeWhile (· != '\n')).length + 1
  s!"{cause.message}: line {line} column {column} (char {offset})"

end FormHarvest.Json
