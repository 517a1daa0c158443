import FormHarvest.Log
import FormHarvest.Settings.Fault

namespace FormHarvest.SettingGroup

/-- The names that are no settings of a group, in order. -/
def unknownNames (group : SettingGroup) (names : List String) : List String :=
  ((names.filter fun name => (Setting.find? group name).isNone).eraseDups).mergeSort (· ≤ ·)

/-- What is logged about names that are no settings. -/
def unknownLog (group : SettingGroup) (names : List String) : List LogRecord :=
  match group.unknownNames names with
  | [] => []
  | unknown =>
    let listed := String.intercalate ", " unknown
    [⟨.warning, .settings, s!"Ignoring unknown {group.title} keys: {listed}"⟩]

/-- The smaller of two numbers, the first if they are equal. -/
def smaller (first second : Json) : Json :=
  match first.units?, second.units? with
  | some a, some b => if b < a then second else first
  | _, _ => first

/-- What is given for a group in a value, if anything is. -/
def givenIn? (group : SettingGroup) (given : Json) : Except GroupFault (Option Json) :=
  match given with
  | .object fields => .ok ((Json.object fields).field? group.key)
  | .list items =>
    if items.any (·.text? == some group.key) then .error .mentionedInList else .ok none
  | .string text =>
    if (text.splitOn group.key).length = 1 then .ok none else .error .mentionedInText
  | other => .error (.heldByNothing other.kindName)

/-- What is wrong with a list of values that are not nested and not all texts: they cannot be put in
order, or the first of them is no name. -/
def oddListFault (first : Json) (rest : List Json) : GroupFault :=
  let unlike (other : Json) : Bool :=
    other.units?.isSome != first.units?.isSome || other.text?.isSome != first.text?.isSome
  match rest.find? unlike with
  | some other => .noOrder other.kindName first.kindName
  | none => .value (.itemNotJoined 0 (rest.foldl smaller first).kindName)

/-- What is wrong with a list in place of names with values, and what is logged before. -/
def listFault (group : SettingGroup) (items : List Json) : GroupFault × List LogRecord :=
  match (Json.list items).listedKeys with
  | .error fault => (.value fault, [])
  | .ok items =>
    let unknown := items.filter fun
      | .string name => (Setting.find? group name).isNone
      | _ => true
    match unknown.mapM Json.text?, unknown with
    | some names, _ => (.noValues, group.unknownLog names)
    | none, first :: rest => (oddListFault first rest, [])
    | none, [] => (.noValues, [])

/-- The names and values that are given for a group, and what is logged on reading them. -/
def read (group : SettingGroup) (given : Json) :
    Except GroupFault (List (String × Json)) × List LogRecord :=
  match given with
  | .object fields => (.ok fields, group.unknownLog (fields.map (·.1)))
  | .string text => (.error .noValues, group.unknownLog (text.toList.map String.singleton))
  | .list items =>
    let (fault, log) := group.listFault items
    (.error fault, log)
  | other => (.error (.value (.listsNothing other.kindName)), [])

end FormHarvest.SettingGroup
