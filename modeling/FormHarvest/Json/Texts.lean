import FormHarvest.Json.Shown

namespace FormHarvest

/-- Why a value cannot be used as it is wanted: it lists nothing, nothing can be joined from it or
from one of its items, it names no place, it has no letters, it cannot be looked up, or it cannot
stand in a document. -/
inductive ValueFault where
  | listsNothing (kind : String)
  | notJoined
  | itemNotJoined (index : Nat) (kind : String)
  | namesNoPlace (kind : String)
  | noLetters (kind : String)
  | notLookedUp (kind : String)
  | notWritten (shown kind : String)
deriving DecidableEq

/-- What is said about a fault. -/
def ValueFault.message : ValueFault → String
  | listsNothing kind => s!"{quoted kind} object is not iterable"
  | notJoined => "can only join an iterable"
  | itemNotJoined index kind => s!"sequence item {index}: expected str instance, {kind} found"
  | namesNoPlace kind => s!"expected str, bytes or os.PathLike object, not {kind}"
  | noLetters kind => s!"{quoted kind} object has no attribute 'lower'"
  | notLookedUp kind => s!"unhashable type: {quoted kind}"
  | notWritten shown kind => s!"cannot serialize {shown} (type {kind})"

namespace Json

/-- What a value lists: the items of a list, the characters of a text, the names of an object. -/
def listed : Json → Except ValueFault (List Json)
  | string value => .ok (value.toList.map fun c => string (String.singleton c))
  | object fields => .ok (fields.map fun (name, _) => string name)
  | list items => .ok items
  | other => .error (.listsNothing other.kindName)

/-- What a value lists if all of it can be looked up, as nested values cannot. -/
def listedKeys (json : Json) : Except ValueFault (List Json) := do
  let items ← json.listed
  match items.find? isNested with
  | some nested => throw (.notLookedUp nested.kindName)
  | none => return items

/-- The text of a value that names a place. -/
def placeName (json : Json) : Except ValueFault String :=
  match json.text? with
  | some text => .ok text
  | none => .error (.namesNoPlace json.kindName)

/-- The text of a value inside a document. Numbers, truth values and null have none. -/
def documentText (json : Json) : Except ValueFault String :=
  if json.text?.isSome || json.isNested then .ok json.shown
  else .error (.notWritten json.shown json.kindName)

end Json

/-- Texts that a value lists one after the other, up to an item that is no text. The fault comes
after the last text. -/
structure Texts where
  texts : List String := []
  fault : Option ValueFault := none
deriving DecidableEq

namespace Texts

/-- The texts at the start of a list of items, which counts from `index`. -/
def ofItems (fault : Nat → String → ValueFault) (index : Nat) : List Json → Texts
  | [] => {}
  | .string text :: rest =>
    let others := ofItems fault (index + 1) rest
    { others with texts := text :: others.texts }
  | other :: _ => { fault := some (fault index other.kindName) }

/-- The texts that a value lists. An item that is no text is a fault of the given kind. -/
def read (fault : String → ValueFault) (json : Json) : Texts :=
  match json.listed with
  | .ok items => ofItems (fun _ => fault) 0 items
  | .error fault => { fault := some fault }

/-- The texts that a value lists to be joined. -/
def readJoined (json : Json) : Texts :=
  match json.listed with
  | .ok items => ofItems .itemNotJoined 0 items
  | .error _ => { fault := some .notJoined }

/-- All the texts, if nothing breaks them off. -/
def whole (texts : Texts) : Except ValueFault (List String) :=
  match texts.fault with
  | some fault => .error fault
  | none => .ok texts.texts

/-- Whether one of the texts passes a test. Without one it depends on whether the texts end there. -/
def anyText (texts : Texts) (test : String → Bool) : Except ValueFault Bool :=
  if texts.texts.any test then .ok true else texts.whole.map fun _ => false

theorem ofItems_map_string (fault : Nat → String → ValueFault) (index : Nat) (texts : List String) :
    ofItems fault index (texts.map .string) = { texts } := by
  induction texts generalizing index with
  | nil => rfl
  | cons first rest ih => simp only [List.map_cons, ofItems, ih]

/-- A list of texts is read as it was written. -/
theorem read_ofTexts (fault : String → ValueFault) (texts : List String) :
    read fault (Json.ofTexts texts) = { texts } := ofItems_map_string _ 0 texts

theorem readJoined_ofTexts (texts : List String) : readJoined (Json.ofTexts texts) = { texts } :=
  ofItems_map_string _ 0 texts

end Texts

end FormHarvest
