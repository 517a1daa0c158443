import FormHarvest.Extraction.Options
import FormHarvest.Proofs.Spots
import Mathlib.Data.List.Basic

namespace FormHarvest

theorem map_mapIdx_eq {α β γ : Type} (number : Nat → α → β) (forget : β → γ) (plain : α → γ)
    (list : List α) (same : ∀ index a, forget (number index a) = plain a) :
    (list.mapIdx number).map forget = list.map plain := by
  refine List.ext_getElem? fun index => ?_
  simp only [List.getElem?_map, List.getElem?_mapIdx, Option.map_map]
  congr 1
  funext a
  exact same index a

theorem map_filter_eq {α β : Type} (test : β → Bool) (f : α → β) (list : List α) :
    (list.filter fun a => test (f a)).map f = (list.map f).filter test :=
  List.filter_map.symm

/-- An item of an array where it stands, and whether it is read with key and value exchanged. -/
structure PlacedItem where
  spot : Spot
  item : ArrayItem Node
  inverted : Bool

namespace PlacedItem

/-- The item as it is read. -/
def read (placed : PlacedItem) : ArrayItem Node :=
  if placed.inverted then placed.item.inverted else placed.item

def firstSpot (placed : PlacedItem) : Spot := placed.spot.child 0

def secondSpot (placed : PlacedItem) : Spot := placed.spot.child placed.item.key.toList.length

/-- The spot of what is read as the key. -/
def keySpot (placed : PlacedItem) : Spot :=
  if placed.inverted then placed.secondSpot else placed.firstSpot

/-- The spot of what is read as the value. -/
def valueSpot (placed : PlacedItem) : Spot :=
  if placed.inverted then placed.firstSpot else placed.secondSpot

end PlacedItem

/-- The items of an array at a spot, where they stand. -/
def placedItems (spot : Spot) (inverted : Bool) (items : List (ArrayItem Node)) : List PlacedItem :=
  items.mapIdx fun index item => ⟨spot.child index, item, inverted⟩

/-- The items with the labels of one item of a list of choices, where they stand. -/
def placedChoices (invert : Bool) (item : PlacedItem) : List PlacedItem :=
  let choice := { item with inverted := invert }
  let found :=
    match choice.read.key.bind Node.arrayItems?, choice.read.value.bind Node.arrayItems? with
    | some group, _ => placedItems choice.keySpot invert group ++ [choice]
    | none, some group => placedItems choice.valueSpot false group
    | none, none => [choice]
  found.filter fun found => found.read.value.any Node.isLabel

/-- The arguments of a call at a spot; they are the last of its parts. -/
def placedArguments (spot : Spot) (call : Node) (args : List Node) : List (Spot × Node) :=
  args.mapIdx fun index arg => (spot.child (call.children.length - args.length + index), arg)

@[simp] theorem map_snd_placedArguments (spot : Spot) (call : Node) (args : List Node) :
    (placedArguments spot call args).map Prod.snd = args :=
  (map_mapIdx_eq _ Prod.snd id args (by intros; rfl)).trans (List.map_id args)

/-- The items with texts among the attributes of a field, where they stand. -/
def placedAttributes : List (Spot × Node) → List PlacedItem
  | [] => []
  | (spot, node) :: rest =>
    match _call : node.callArguments? with
    | some args => placedAttributes (placedArguments spot node args ++ rest)
    | none =>
      ((placedItems spot false (node.arrayItems?.getD [])).filter fun placed =>
          placed.item.keyText?.any attributeFields.contains)
        ++ placedAttributes rest
termination_by nodes => Node.totalSize (nodes.map Prod.snd)
decreasing_by
  · have := Node.totalSize_callArguments?_lt _call
    simp only [List.map_append, Node.totalSize_append, List.map_cons, Node.totalSize_cons,
      map_snd_placedArguments]
    omega
  · have := node.totalSize_children_lt
    simp only [List.map_cons, Node.totalSize_cons]
    omega

/-- The items with the message of one constraint, where they stand. -/
def placedConstraint (constraint : PlacedItem) : List PlacedItem :=
  match constraint.item.value with
  | none => []
  | some call =>
    let first := ((call.callArguments?.map (placedArguments constraint.secondSpot call)).bind List.head?)
    match first with
    | none => []
    | some (spot, options) =>
      (placedItems spot false (options.arrayItems?.getD [])).filter fun placed =>
        placed.item.keyText? == some "message"

/-- The texts that one item of an option array holds, where they stand. -/
def placedTextsOf (invert : Bool) (isField : String → Bool) (item : PlacedItem) : List PlacedItem :=
  let inside := (item.item.value.bind Node.arrayItems?).map (placedItems item.secondSpot false)
  match item.item.keyText? with
  | none => []
  | some "label" => [item]
  | some "invalid_message" => [item]
  | some "placeholder" | some "empty_value" =>
    if item.item.value.any (Node.isConstant "false") then [] else inside.getD [item]
  | some "choices" => (inside.getD []).flatMap (placedChoices invert)
  | some "constraints" => (inside.getD []).flatMap placedConstraint
  | some "attr" => placedAttributes (item.item.value.toList.map (item.secondSpot, ·))
  | some other =>
    if isField other then
      match inside with
      | some fields => fields.filter fun field => (field.item.value.bind Node.knownString?).isSome
      | none => [item]
    else []

/-- The domain that an option array with a domain of its own fixes for the texts at a key. -/
def domainAtKey (own : Option String) (key : Option String) : Option String :=
  if key = some "invalid_message" ∨ key = some "constraints" then some constraintDomain else own

/-- The texts that the option array at a spot holds, where they stand, each with its domain if the
array fixes one. -/
def placedTexts (convention : ChoiceConvention) (isField : String → Bool) (spot : Spot)
    (items : List (ArrayItem Node)) : List (PlacedItem × Option String) :=
  (placedItems spot false items).flatMap fun item =>
    (placedTextsOf (convention == .current || choicesAsValues items) isField item).map
      (·, domainAtKey (translationDomain? items) item.item.keyText?)

@[simp] theorem map_item_placedItems (spot : Spot) (inverted : Bool)
    (items : List (ArrayItem Node)) : (placedItems spot inverted items).map PlacedItem.item = items :=
  (map_mapIdx_eq _ PlacedItem.item id items (by intros; rfl)).trans (List.map_id items)

theorem map_read_placedItems (spot : Spot) (inverted : Bool) (items : List (ArrayItem Node)) :
    (placedItems spot inverted items).map PlacedItem.read
      = items.map fun item => if inverted then item.inverted else item :=
  map_mapIdx_eq _ _ _ items fun _ _ => rfl

theorem inverted_of_mem_placedItems {spot : Spot} {inverted : Bool} {items : List (ArrayItem Node)}
    {placed : PlacedItem} (member : placed ∈ placedItems spot inverted items) :
    placed.inverted = inverted := by
  obtain ⟨index, bound, rfl⟩ := List.mem_mapIdx.mp member
  rfl

theorem PlacedItem.read_of_upright {placed : PlacedItem} (upright : placed.inverted = false) :
    placed.read = placed.item := by
  rw [read, upright]
  rfl

theorem map_read_filter_placedItems (test : ArrayItem Node → Bool) (spot : Spot)
    (items : List (ArrayItem Node)) :
    ((placedItems spot false items).filter fun placed => test placed.item).map PlacedItem.read
      = items.filter test := by
  have upright : ∀ placed ∈ (placedItems spot false items).filter fun placed => test placed.item,
      placed.read = placed.item := fun placed member =>
    placed.read_of_upright (inverted_of_mem_placedItems (List.mem_filter.mp member).1)
  rw [List.map_congr_left upright, map_filter_eq, map_item_placedItems]

theorem map_read_placedChoices (invert : Bool) (item : PlacedItem) :
    (placedChoices invert item).map PlacedItem.read = choiceItems invert item.item := by
  have label (found : List PlacedItem) :=
    map_filter_eq (fun read : ArrayItem Node => read.value.any Node.isLabel) PlacedItem.read found
  have unchanged (group : List (ArrayItem Node)) :
      (group.map fun nested => if false then nested.inverted else nested) = group := by
    simp only [Bool.false_eq_true, if_false, List.map_id']
  obtain ⟨spot, item, _⟩ := item
  simp only [placedChoices, choiceItems, label]
  simp only [PlacedItem.read]
  generalize same : (if invert then item.inverted else item) = choice
  cases choice.key.bind Node.arrayItems? with
  | some group =>
    simp only [List.map_append, map_read_placedItems, List.map_cons, List.map_nil, PlacedItem.read,
      same]
  | none =>
    cases choice.value.bind Node.arrayItems? with
    | some group => simp only [map_read_placedItems, unchanged]
    | none => simp only [List.map_cons, List.map_nil, PlacedItem.read, same]

theorem attributeItems_cons_of_call {node : Node} {args : List Node} (rest : List Node)
    (call : node.callArguments? = some args) :
    attributeItems (node :: rest) = attributeItems (args ++ rest) := by
  rw [attributeItems]
  split
  · rename_i found
    rw [call] at found
    cases found
    rfl
  · rename_i found
    rw [call] at found
    cases found

theorem attributeItems_cons_of_none {node : Node} (rest : List Node)
    (noCall : node.callArguments? = none) :
    attributeItems (node :: rest)
      = ((node.arrayItems?.getD []).filter fun item => item.keyText?.any attributeFields.contains)
        ++ attributeItems rest := by
  rw [attributeItems]
  split
  · rename_i found
    rw [noCall] at found
    cases found
  · rfl

theorem map_read_placedAttributes (nodes : List (Spot × Node)) :
    (placedAttributes nodes).map PlacedItem.read = attributeItems (nodes.map Prod.snd) := by
  fun_induction placedAttributes nodes with
  | case1 => rw [List.map_nil, List.map_nil, attributeItems]
  | case2 spot node rest args call ih =>
    rw [ih, List.map_append, map_snd_placedArguments, List.map_cons,
      attributeItems_cons_of_call _ call]
  | case3 spot node rest noCall ih =>
    rw [List.map_append, ih, List.map_cons, attributeItems_cons_of_none _ noCall,
      map_read_filter_placedItems fun item => item.keyText?.any attributeFields.contains]

theorem map_read_placedConstraint {constraint : PlacedItem} :
    (placedConstraint constraint).map PlacedItem.read
      = constraintItems [constraint.item] := by
  have options (spot : Spot) (node : Node) := map_read_filter_placedItems
    (fun item => item.keyText? == some "message") spot (node.arrayItems?.getD [])
  simp only [placedConstraint, constraintItems, List.flatMap_cons, List.flatMap_nil, List.append_nil]
  cases constraint.item.value with
  | none => rfl
  | some call =>
    simp only [Option.bind_some]
    cases given : call.callArguments? with
    | none => rfl
    | some args =>
      cases args with
      | nil => rfl
      | cons first rest =>
        simp only [Option.map_some, Option.bind_some, placedArguments, List.mapIdx_cons,
          List.head?_cons, options]

theorem constraintItems_eq_flatMap (constraints : List (ArrayItem Node)) :
    constraintItems constraints = constraints.flatMap fun constraint => constraintItems [constraint] := by
  simp only [constraintItems, List.flatMap_cons, List.flatMap_nil, List.append_nil]

/-- Without the spots the texts are those that the extraction reads. -/
theorem map_read_placedTexts (convention : ChoiceConvention) (isField : String → Bool) (spot : Spot)
    (items : List (ArrayItem Node)) :
    (placedTexts convention isField spot items).map (fun text => (⟨text.1.read, text.2⟩ : TextItem))
      = textItems convention isField items := by
  rw [placedTexts, textItems, List.map_flatMap]
  conv => rhs; rw [← map_item_placedItems spot false items, List.flatMap_map]
  refine List.flatMap_congr fun item member => ?_
  have upright := item.read_of_upright (inverted_of_mem_placedItems member)
  have forget (found : List PlacedItem) (domain : Option String) :
      (found.map (·, domain)).map (fun text => (⟨text.1.read, text.2⟩ : TextItem))
        = (found.map PlacedItem.read).map (⟨·, domain⟩) := by
    simp only [List.map_map, Function.comp_def]
  have inside (found : Option (List (ArrayItem Node))) :
      ((found.map (placedItems item.secondSpot false)).getD []).map PlacedItem.item
        = found.getD [] := by
    cases found <;> simp only [Option.map_none, Option.map_some, Option.getD_none, Option.getD_some,
      List.map_nil, map_item_placedItems]
  have insideOr (found : Option (List (ArrayItem Node))) :
      ((found.map (placedItems item.secondSpot false)).getD [item]).map PlacedItem.read
        = found.getD [item.item] := by
    cases found <;> simp [map_read_placedItems, upright]
  have label (other : String) (noMessage : other ≠ "invalid_message") (noConstraint : other ≠ "constraints") :
      domainAtKey (translationDomain? items) (some other) = translationDomain? items := by
    simp only [domainAtKey, Option.some.injEq, noMessage, noConstraint, or_self, if_false]
  have onlyNode (found : Option Node) :
      (found.toList.map (item.secondSpot, ·)).map Prod.snd = found.toList := by
    simp only [List.map_map, Function.comp_def, List.map_id']
  simp only [placedTextsOf, map_item_placedItems, forget]
  split <;> rename_i key <;> simp only [key]
  case h_1 => rfl
  case h_2 => rw [label _ (by decide) (by decide), List.map_singleton, List.map_singleton, upright]
  case h_3 => rw [List.map_singleton, List.map_singleton, upright]; rfl
  case h_4 =>
    split
    · rfl
    · rw [label _ (by decide) (by decide), insideOr]
  case h_5 =>
    split
    · rfl
    · rw [label _ (by decide) (by decide), insideOr]
  case h_6 =>
    rw [label _ (by decide) (by decide), ← inside, List.map_flatMap, List.flatMap_map]
    simp only [map_read_placedChoices]
  case h_7 =>
    rw [← inside, List.map_flatMap, constraintItems_eq_flatMap, List.flatMap_map]
    simp only [map_read_placedConstraint]
    rfl
  case h_8 => rw [label _ (by decide) (by decide), map_read_placedAttributes, onlyNode]
  case h_9 other _ noMessage _ _ _ noConstraint _ =>
    rw [label other noMessage noConstraint]
    split
    · cases item.item.value.bind Node.arrayItems? with
      | none => simp only [Option.map_none, List.map_singleton, upright]
      | some fields =>
        have filtered := map_read_filter_placedItems
          (fun field => (field.value.bind Node.knownString?).isSome) item.secondSpot fields
        simp only [Option.map_some, filtered]
    · rfl

end FormHarvest
