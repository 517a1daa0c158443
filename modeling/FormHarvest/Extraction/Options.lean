import FormHarvest.Extraction.Domain

namespace FormHarvest

/-- How an array of choices is read: whether its labels are its values, unless the options around it
say otherwise, or always its keys. -/
inductive ChoiceConvention where
  | legacy
  | current
deriving DecidableEq

namespace ChoiceConvention

def name : ChoiceConvention → String
  | current => "current"
  | legacy => "legacy"

def all : List ChoiceConvention := [current, legacy]

/-- The convention of a name. -/
def ofName? (name : String) : Option ChoiceConvention := all.find? fun known => known.name == name

theorem ofName?_name (convention : ChoiceConvention) : ofName? convention.name = some convention := by
  cases convention <;> decide

end ChoiceConvention

/-- An item whose value is a text, with the domain that the options around it fix. -/
structure TextItem where
  item : ArrayItem Node
  domain : Option String

/-- The domain of texts about invalid input. -/
def constraintDomain : String := "validators"

/-- The options that always hold texts. -/
def builtinFields : List String :=
  ["label", "empty_value", "placeholder", "choices", "invalid_message", "attr", "constraints", "title"]

/-- The attributes that hold texts. -/
def attributeFields : List String := ["placeholder", "title"]

namespace Node

/-- Whether a node can be the label of a choice: constants and the like cannot. -/
def isLabel : Node → Bool
  | .number _ _ _ => true
  | node => node.knownString?.isSome

theorem totalSize_callArguments?_lt {node : Node} {args : List Node}
    (call : node.callArguments? = some args) : totalSize args < sizeOf node := by
  have parts := node.totalSize_children_lt
  cases node with
  | methodCall receiver name given mark =>
    simp only [callArguments?, Option.some.injEq] at call
    subst call
    simp only [children, totalSize_cons] at parts
    omega
  | call name callee given mark =>
    simp only [callArguments?, Option.some.injEq] at call
    subst call
    simp only [children, totalSize_append] at parts
    omega
  | staticCall className name given mark =>
    simp only [callArguments?, Option.some.injEq] at call
    subst call
    exact parts
  | creation className given mark =>
    simp only [callArguments?, Option.some.injEq] at call
    subst call
    exact parts
  | _ => simp only [callArguments?, reduceCtorEq] at call

end Node

/-- The items with the labels of one item of a list of choices: the item, or the items of the group
that it names. -/
def choiceItems (invert : Bool) (item : ArrayItem Node) : List (ArrayItem Node) :=
  let item := if invert then item.inverted else item
  let found :=
    match item.key.bind Node.arrayItems?, item.value.bind Node.arrayItems? with
    | some group, _ =>
      let turned (nested : ArrayItem Node) := if invert then nested.inverted else nested
      group.map turned ++ [item]
    | none, some group => group
    | none, none => [item]
  found.filter fun item => item.value.any Node.isLabel

/-- The items with texts among the attributes of a field, also where they are arguments of calls
that join them. -/
def attributeItems : List Node → List (ArrayItem Node)
  | [] => []
  | node :: rest =>
    match _call : node.callArguments? with
    | some args => attributeItems (args ++ rest)
    | none =>
      ((node.arrayItems?.getD []).filter fun item => item.keyText?.any attributeFields.contains)
        ++ attributeItems rest
termination_by nodes => Node.totalSize nodes
decreasing_by
  · have := Node.totalSize_callArguments?_lt _call
    simp only [Node.totalSize_append, Node.totalSize_cons]
    omega
  · have := node.totalSize_children_lt
    simp only [Node.totalSize_cons]
    omega

/-- The items with the messages of constraints. -/
def constraintItems (constraints : List (ArrayItem Node)) : List (ArrayItem Node) :=
  constraints.flatMap fun constraint =>
    let options := ((constraint.value.bind Node.callArguments?).bind List.head?).bind Node.arrayItems?
    (options.getD []).filter fun option => option.keyText? == some "message"

/-- The texts that an option array holds, each with its domain if the array fixes one. -/
def textItems (convention : ChoiceConvention) (isField : String → Bool)
    (items : List (ArrayItem Node)) : List TextItem :=
  let own := translationDomain? items
  items.flatMap fun item =>
    let inside := (item.value.bind Node.arrayItems?)
    match item.keyText? with
    | none => []
    | some "label" => [⟨item, own⟩]
    | some "invalid_message" => [⟨item, some constraintDomain⟩]
    | some "placeholder" | some "empty_value" =>
      if item.value.any (Node.isConstant "false") then []
      else (inside.getD [item]).map (⟨·, own⟩)
    | some "choices" =>
      let invert := convention == .current || choicesAsValues items
      ((inside.getD []).flatMap (choiceItems invert)).map (⟨·, own⟩)
    | some "constraints" => (constraintItems (inside.getD [])).map (⟨·, some constraintDomain⟩)
    | some "attr" => (attributeItems item.value.toList).map (⟨·, own⟩)
    | some other =>
      if isField other then
        match inside with
        | some fields =>
          (fields.filter fun field => (field.value.bind Node.knownString?).isSome).map (⟨·, own⟩)
        | none => [⟨item, own⟩]
      else []

end FormHarvest
