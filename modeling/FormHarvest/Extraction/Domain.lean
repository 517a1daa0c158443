import FormHarvest.Php.Node

namespace FormHarvest

/-- The text of the key of an item, if it is a string that is known. -/
def ArrayItem.keyText? (item : ArrayItem Node) : Option String := item.key.bind Node.knownString?

/-- The last value that an option of an array has, as far as a reading of values goes. -/
def lastOption? {α : Type} (name : String) (reading : Option Node → Option α)
    (items : List (ArrayItem Node)) : Option α :=
  (items.filterMap fun item => if item.keyText? == some name then reading item.value else none).getLast?

/-- The domain that an option array names for its own texts. -/
def translationDomain? (items : List (ArrayItem Node)) : Option String :=
  lastOption? "translation_domain" (·.bind Node.knownString?) items

/-- Whether an option array says that the values of its choices are their labels' counterparts. -/
def choicesAsValues (items : List (ArrayItem Node)) : Bool :=
  (lastOption? "choices_as_values" (fun value => some (value.any (Node.isConstant "true"))) items).getD
    false

/-- The methods that give defaults to all options of a class. -/
def defaultSetters : List String := ["setdefaults", "replacedefaults"]

/-- The methods that give back the object that they are called on. -/
def chainedMethods : List String := [
  "setdefaults", "replacedefaults", "setoptional", "setrequired", "setallowedvalues",
  "addallowedvalues", "setallowedtypes", "addallowedtypes", "setfilters"]

namespace Node

/-- Whether a node calls a method that gives defaults. -/
def givesDefaults : Node → Bool
  | .methodCall _ name _ _ => defaultSetters.contains (lowercase name)
  | _ => false

/-- Whether a chain of calls that give back their object starts at a variable. -/
def startsAtVariable : Node → Bool
  | .methodCall receiver name _ _ =>
    chainedMethods.contains (lowercase name) && receiver.startsAtVariable
  | .variable _ _ => true
  | _ => false
termination_by node => sizeOf node

/-- The items of a node that is an array. -/
def arrayItems? : Node → Option (List (ArrayItem Node))
  | .array items _ => some items
  | _ => none

/-- The default domain that a node sets, if it is a call that gives defaults with a domain among
them. -/
def defaultDomain? : Node → Option String
  | .methodCall receiver name args mark =>
    if (methodCall receiver name args mark).givesDefaults && receiver.startsAtVariable then
      (args.head?.bind arrayItems?).bind translationDomain?
    else none
  | _ => none

/-- The name that a node has of its own, not that of a class that it refers to. -/
def name? : Node → Option String
  | .variable name _ => some name
  | .methodCall _ name _ _ => some name
  | .call name _ _ _ => some name
  | .staticCall _ name _ _ => some name
  | .constant name _ => some name
  | .classConstant _ name _ => some name
  | .property _ name _ => some name
  | .classBody name _ _ => some name
  | _ => none

/-- What the method or property of a node is taken from. -/
def receiver? : Node → Option Node
  | .methodCall receiver _ _ _ => some receiver
  | .property receiver _ _ => some receiver
  | _ => none

/-- A part of a method call that a node of another kind may lack. -/
inductive MissingPart where
  | name
  | receiver
  | arguments
deriving DecidableEq

/-- The default domain that a node of any kind sets when it is read as a method call. The reading
goes from part to part and fails at the first one that is needed and missing. -/
def readDefaultDomain (node : Node) : Except MissingPart (Option String) :=
  match node.name? with
  | none => .error .name
  | some name =>
    if !defaultSetters.contains (lowercase name) then .ok none
    else
      match node.receiver? with
      | none => .error .receiver
      | some receiver =>
        if !receiver.startsAtVariable then .ok none
        else
          match node with
          | .methodCall _ _ args _ => .ok ((args.head?.bind arrayItems?).bind translationDomain?)
          | _ => .error .arguments

/-- A method call has all the parts. -/
theorem readDefaultDomain_methodCall (receiver : Node) (name : String) (args : List Node)
    (mark : Mark) :
    (methodCall receiver name args mark).readDefaultDomain
      = .ok (methodCall receiver name args mark).defaultDomain? := by
  have read : (methodCall receiver name args mark).readDefaultDomain
      = if !defaultSetters.contains (lowercase name) then .ok none
        else if !receiver.startsAtVariable then .ok none
        else .ok ((args.head?.bind arrayItems?).bind translationDomain?) := rfl
  have known : (methodCall receiver name args mark).defaultDomain?
      = if defaultSetters.contains (lowercase name) && receiver.startsAtVariable then
          (args.head?.bind arrayItems?).bind translationDomain?
        else none := rfl
  rw [read, known]
  cases defaultSetters.contains (lowercase name) <;> cases receiver.startsAtVariable <;> rfl

end Node

end FormHarvest
