import FormHarvest.Decimal.Double

namespace FormHarvest

/-- A JSON value. Whole numbers and fractions are different, and the fields of an object keep
their order. -/
inductive Json where
  | null
  | bool (value : Bool)
  | int (value : Int)
  | float (value : Double)
  | string (value : String)
  | list (items : List Json)
  | object (fields : List (String × Json))
deriving Inhabited

namespace Json

/-- The value of a field; none when this is no object or has no such field. -/
def field? (json : Json) (name : String) : Option Json :=
  match json with
  | object fields => (fields.find? fun f => f.1 == name).map (·.2)
  | _ => none

/-- The text that a value is. -/
def text? : Json → Option String
  | string value => some value
  | _ => none

/-- The fields with one of them set: in place when it is there, at the end when it is new. -/
def setField (name : String) (value : Json) : List (String × Json) → List (String × Json)
  | [] => [(name, value)]
  | f :: rest => if f.1 == name then (name, value) :: rest else f :: setField name value rest

/-- An optional text, null when there is none. -/
def ofOption : Option String → Json
  | none => null
  | some value => string value

/-- A list of texts. -/
def ofTexts (texts : List String) : Json := list (texts.map string)

end Json

end FormHarvest
