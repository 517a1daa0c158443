import FormHarvest.Decimal.Shortest
import FormHarvest.Json.Basic
import FormHarvest.Text.Quoted

namespace FormHarvest.Json

/-- A character inside a string. Only the double quote, the backslash and control characters are
escaped; all others stand for themselves. -/
def escapedChar (c : Char) : List Char :=
  if c == '"' then ['\\', '"']
  else if c == '\\' then ['\\', '\\']
  else if c == '\n' then ['\\', 'n']
  else if c == '\r' then ['\\', 'r']
  else if c == '\t' then ['\\', 't']
  else if c == '\x0c' then ['\\', 'f']
  else if c == '\x08' then ['\\', 'b']
  else if c.toNat < 32 then '\\' :: 'u' :: hexDigits 4 c.toNat
  else [c]

/-- A string in double quotes. -/
def writtenText (text : String) : List Char :=
  '"' :: text.toList.flatMap escapedChar ++ ['"']

/-- Where the parts of a list or object stand: on lines of their own, indented by a number of
spaces a level, or all on one line. -/
inductive Layout where
  | lines (indent : Nat)
  | oneLine

/-- What stands before a part at a depth. -/
def Layout.gap (layout : Layout) (depth : Nat) : List Char :=
  match layout with
  | .lines indent => '\n' :: List.replicate (indent * depth) ' '
  | .oneLine => []

/-- What stands between a name and its value. -/
def Layout.colon : Layout → List Char
  | .lines _ => [':', ' ']
  | .oneLine => [':']

mutual

/-- A value that stands at a depth. -/
def writtenAt (layout : Layout) (depth : Nat) : Json → List Char
  | null => "null".toList
  | bool true => "true".toList
  | bool false => "false".toList
  | int value => (toString value).toList
  | float value => (value.textWith "Infinity" "NaN").toList
  | string value => writtenText value
  | list [] => ['[', ']']
  | list (first :: rest) =>
    '[' :: layout.gap (depth + 1) ++ writtenAt layout (depth + 1) first
      ++ writtenItems layout (depth + 1) rest ++ layout.gap depth ++ [']']
  | object [] => ['{', '}']
  | object ((name, value) :: rest) =>
    '{' :: layout.gap (depth + 1) ++ writtenText name ++ layout.colon
      ++ writtenAt layout (depth + 1) value
      ++ writtenFields layout (depth + 1) rest ++ layout.gap depth ++ ['}']

/-- The further items of a list. -/
def writtenItems (layout : Layout) (depth : Nat) : List Json → List Char
  | [] => []
  | item :: rest =>
    ',' :: layout.gap depth ++ writtenAt layout depth item ++ writtenItems layout depth rest

/-- The further fields of an object. -/
def writtenFields (layout : Layout) (depth : Nat) : List (String × Json) → List Char
  | [] => []
  | (name, value) :: rest =>
    ',' :: layout.gap depth ++ writtenText name ++ layout.colon ++ writtenAt layout depth value
      ++ writtenFields layout depth rest

end

/-- A value as a text in the given layout. -/
def write (layout : Layout) (json : Json) : String := String.ofList (writtenAt layout 0 json)

end FormHarvest.Json
