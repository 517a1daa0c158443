import FormHarvest.Decimal.Shortest
import FormHarvest.Json.Basic
import FormHarvest.Text.Quoted

namespace FormHarvest.Json

/-- The kind of a value as messages name it. -/
def kindName : Json → String
  | null => "NoneType"
  | bool _ => "bool"
  | int _ => "int"
  | float _ => "float"
  | string _ => "str"
  | list _ => "list"
  | object _ => "dict"

/-- The braces around the fields of an object. -/
def inBraces (text : String) : String := "\x7b" ++ text ++ "\x7d"

mutual

/-- A value inside another one in a message: texts stand in quotes. -/
def shownInside : Json → String
  | null => "None"
  | bool true => "True"
  | bool false => "False"
  | int value => toString value
  | float value => value.text
  | string value => quoted value
  | list items => "[" ++ String.intercalate ", " (shownItems items) ++ "]"
  | object fields => inBraces (String.intercalate ", " (shownFields fields))

/-- The items of a list in a message. -/
def shownItems : List Json → List String
  | [] => []
  | item :: rest => shownInside item :: shownItems rest

/-- The fields of an object in a message. -/
def shownFields : List (String × Json) → List String
  | [] => []
  | (name, value) :: rest => (quoted name ++ ": " ++ shownInside value) :: shownFields rest

end

/-- A value in a message. A text stands for itself. -/
def shown : Json → String
  | string value => value
  | value => value.shownInside

/-- Whether a value counts as yes: null, zero and what is empty do not. -/
def isTrue : Json → Bool
  | null => false
  | bool value => value
  | int value => value != 0
  | float value => !value.isZero
  | string value => value != ""
  | list items => !items.isEmpty
  | object fields => !fields.isEmpty

/-- The size of a number, as a multiple of the least positive fraction. Truth values are numbers. -/
def units? : Json → Option Int
  | bool value => some (if value then Double.unitsInOne else 0)
  | int value => some (value * Double.unitsInOne)
  | float value => some (if value.isNegative then -value.units else value.units)
  | _ => none

/-- Whether a value is built from others. -/
def isNested : Json → Bool
  | list _ | object _ => true
  | _ => false

end FormHarvest.Json
