import FormHarvest.Proofs.PlacedTexts

namespace FormHarvest

/-- A spot is another one or lies below it. -/
def Spot.Inside (inner outer : Spot) : Prop := inner.top = outer.top ∧ outer.below <+: inner.below

namespace Spot.Inside

theorem refl (spot : Spot) : spot.Inside spot := ⟨rfl, List.prefix_rfl⟩

theorem trans {inner middle outer : Spot} (one : inner.Inside middle) (two : middle.Inside outer) :
    inner.Inside outer :=
  ⟨one.1.trans two.1, two.2.trans one.2⟩

theorem child {inner outer : Spot} (inside : inner.Inside outer) (index : Nat) :
    (inner.child index).Inside outer :=
  ⟨inside.1, inside.2.trans (List.prefix_append _ _)⟩

theorem index_eq {spot inner : Spot} {first second : Nat} (one : inner.Inside (spot.child first))
    (two : inner.Inside (spot.child second)) : first = second := by
  have same := List.prefix_of_prefix_length_le one.2 two.2 (by simp [Spot.child])
  simpa [Spot.child] using same

end Spot.Inside

/-- A node stands at a spot below or at another one, and in the same class. -/
structure StandsWithin (file scope : List Node) (outer spot : Spot) (node : Node) : Prop where
  stands : standingAt? file spot = some ⟨spot, scope, node⟩
  inside : spot.Inside outer

namespace StandsWithin

variable {file scope : List Node} {outer spot : Spot} {node : Node}

/-- The parts of a node that is no class stand in the same class as the node. -/
theorem part {part : Node} {index : Nat} (here : StandsWithin file scope outer spot node)
    (noClass : node.isClassBody = false) (found : node.children[index]? = some part) :
    StandsWithin file scope outer (spot.child index) part := by
  refine ⟨?_, here.inside.child index⟩
  rw [standingAt?_child, here.stands, Option.bind_some, Standing.part?, found]
  simp only [Option.map_some, Standing.inside, noClass, if_false, Bool.false_eq_true]

theorem weaken {further : Spot} (here : StandsWithin file scope outer spot node)
    (wider : outer.Inside further) : StandsWithin file scope further spot node :=
  ⟨here.stands, here.inside.trans wider⟩

theorem self (here : StandsWithin file scope outer spot node) :
    StandsWithin file scope spot spot node :=
  ⟨here.stands, .refl spot⟩

end StandsWithin

/-- An item stands at its spot, below another spot and in the same class. -/
def PlacedItem.Within (file scope : List Node) (outer : Spot) (placed : PlacedItem) : Prop :=
  StandsWithin file scope outer placed.spot (.item placed.item)

namespace PlacedItem.Within

variable {file scope : List Node} {outer : Spot} {placed : PlacedItem} {node : Node}

theorem first (here : placed.Within file scope outer) (key : placed.item.key = some node) :
    StandsWithin file scope outer placed.firstSpot node :=
  here.part rfl (by simp [Node.children, key])

theorem second (here : placed.Within file scope outer) (value : placed.item.value = some node) :
    StandsWithin file scope outer placed.secondSpot node :=
  here.part rfl (by simp [Node.children, value])

theorem key (here : placed.Within file scope outer) (key : placed.read.key = some node) :
    StandsWithin file scope outer placed.keySpot node := by
  obtain ⟨spot, item, inverted⟩ := placed
  cases inverted with
  | true => exact here.second key
  | false => exact here.first key

theorem value (here : placed.Within file scope outer) (value : placed.read.value = some node) :
    StandsWithin file scope outer placed.valueSpot node := by
  obtain ⟨spot, item, inverted⟩ := placed
  cases inverted with
  | true => exact here.first value
  | false => exact here.second value

theorem weaken {further : Spot} (here : placed.Within file scope outer)
    (wider : outer.Inside further) : placed.Within file scope further :=
  StandsWithin.weaken here wider

end PlacedItem.Within

namespace Node

theorem eq_array_of_arrayItems? {node : Node} {items : List (ArrayItem Node)}
    (found : node.arrayItems? = some items) : ∃ mark, node = .array items mark := by
  cases node <;> cases found
  exact ⟨_, rfl⟩

theorem children_of_callArguments? {node : Node} {args : List Node}
    (found : node.callArguments? = some args) :
    node.isClassBody = false ∧ ∃ front, node.children = front ++ args := by
  cases node <;> cases found
  · exact ⟨rfl, [_], rfl⟩
  · exact ⟨rfl, _, rfl⟩
  · exact ⟨rfl, [], rfl⟩
  · exact ⟨rfl, [], rfl⟩

end Node

section Within

variable {file scope : List Node} {outer : Spot}

theorem placedItems_within {spot : Spot} {items : List (ArrayItem Node)} {node : Node}
    (inverted : Bool) (here : StandsWithin file scope outer spot node)
    (array : node.arrayItems? = some items) :
    ∀ placed ∈ placedItems spot inverted items, placed.Within file scope outer := by
  intro placed member
  obtain ⟨mark, rfl⟩ := Node.eq_array_of_arrayItems? array
  obtain ⟨index, bound, rfl⟩ := List.mem_mapIdx.mp member
  exact here.part rfl (by simp [Node.children, List.getElem?_eq_getElem bound])

theorem getD_placedItems_within {spot : Spot} {node : Node}
    (here : StandsWithin file scope outer spot node) :
    ∀ placed ∈ placedItems spot false (node.arrayItems?.getD []),
      placed.Within file scope outer := by
  intro placed member
  cases array : node.arrayItems? with
  | none =>
    rw [array] at member
    cases member
  | some items =>
    rw [array] at member
    exact placedItems_within false here array placed member

theorem placedArguments_within {spot : Spot} {call : Node} {args : List Node}
    (here : StandsWithin file scope outer spot call) (given : call.callArguments? = some args) :
    ∀ arg ∈ placedArguments spot call args, StandsWithin file scope outer arg.1 arg.2 := by
  intro arg member
  obtain ⟨noClass, front, parts⟩ := Node.children_of_callArguments? given
  obtain ⟨index, bound, rfl⟩ := List.mem_mapIdx.mp member
  refine here.part noClass ?_
  rw [parts, List.length_append, Nat.add_sub_cancel, List.getElem?_append_right (Nat.le_add_right _ _),
    Nat.add_sub_cancel_left, List.getElem?_eq_getElem bound]

theorem placedChoices_within (invert : Bool) {item : PlacedItem}
    (here : item.Within file scope outer) :
    ∀ placed ∈ placedChoices invert item, placed.Within file scope outer := by
  intro placed member
  have here : PlacedItem.Within file scope outer { item with inverted := invert } := here
  simp only [placedChoices, List.mem_filter] at member
  obtain ⟨member, -⟩ := member
  split at member
  · rename_i group key
    obtain ⟨node, read, array⟩ := Option.bind_eq_some_iff.mp key
    rcases List.mem_append.mp member with member | member
    · exact placedItems_within invert (here.key read) array placed member
    · rw [List.mem_singleton.mp member]
      exact here
  · rename_i group _ value
    obtain ⟨node, read, array⟩ := Option.bind_eq_some_iff.mp value
    exact placedItems_within false (here.value read) array placed member
  · rw [List.mem_singleton.mp member]
    exact here

theorem placedAttributes_within {nodes : List (Spot × Node)}
    (here : ∀ node ∈ nodes, StandsWithin file scope outer node.1 node.2) :
    ∀ placed ∈ placedAttributes nodes, placed.Within file scope outer := by
  fun_induction placedAttributes nodes with
  | case1 =>
    intro placed member
    cases member
  | case2 spot node rest args call ih =>
    refine ih fun arg member => ?_
    rcases List.mem_append.mp member with member | member
    · exact placedArguments_within (here _ List.mem_cons_self) call arg member
    · exact here arg (.tail _ member)
  | case3 spot node rest noCall ih =>
    intro placed member
    rcases List.mem_append.mp member with member | member
    · have atNode := here _ List.mem_cons_self
      exact getD_placedItems_within atNode placed (List.mem_filter.mp member).1
    · exact ih (fun node member => here node (.tail _ member)) placed member

theorem placedConstraint_within {constraint : PlacedItem}
    (here : constraint.Within file scope outer) :
    ∀ placed ∈ placedConstraint constraint, placed.Within file scope outer := by
  intro placed member
  simp only [placedConstraint] at member
  split at member
  · cases member
  · rename_i call value
    split at member
    · cases member
    · rename_i spot options first
      obtain ⟨_, found, atHead⟩ := Option.bind_eq_some_iff.mp first
      obtain ⟨args, given, rfl⟩ := Option.map_eq_some_iff.mp found
      have option := placedArguments_within (here.second value) given _ (List.mem_of_head? atHead)
      exact getD_placedItems_within option placed (List.mem_filter.mp member).1

theorem placedTextsOf_within (invert : Bool) (isField : String → Bool) {item : PlacedItem}
    (here : item.Within file scope outer) :
    ∀ placed ∈ placedTextsOf invert isField item, placed.Within file scope outer := by
  intro placed member
  have within {fields : List PlacedItem}
      (found : (item.item.value.bind Node.arrayItems?).map (placedItems item.secondSpot false)
        = some fields) : ∀ field ∈ fields, field.Within file scope outer := by
    obtain ⟨items, array, rfl⟩ := Option.map_eq_some_iff.mp found
    obtain ⟨node, value, array⟩ := Option.bind_eq_some_iff.mp array
    exact placedItems_within false (here.second value) array
  have withinOr {found : Option (List PlacedItem)} {other : List PlacedItem}
      (same : (item.item.value.bind Node.arrayItems?).map (placedItems item.secondSpot false) = found)
      (others : ∀ field ∈ other, field.Within file scope outer) :
      ∀ field ∈ found.getD other, field.Within file scope outer := by
    cases found with
    | none => exact others
    | some fields => exact within same
  have nothing : ∀ field ∈ ([] : List PlacedItem), field.Within file scope outer := by
    intro field member
    cases member
  have itself : ∀ field ∈ [item], field.Within file scope outer := by
    intro field member
    rw [List.mem_singleton.mp member]
    exact here
  simp only [placedTextsOf] at member
  split at member
  case h_1 => cases member
  case h_2 => exact itself placed member
  case h_3 => exact itself placed member
  case h_4 =>
    split at member
    · cases member
    · exact withinOr rfl itself placed member
  case h_5 =>
    split at member
    · cases member
    · exact withinOr rfl itself placed member
  case h_6 =>
    obtain ⟨choice, inside, member⟩ := List.mem_flatMap.mp member
    exact placedChoices_within invert (withinOr rfl nothing choice inside) placed member
  case h_7 =>
    obtain ⟨constraint, inside, member⟩ := List.mem_flatMap.mp member
    exact placedConstraint_within (withinOr rfl nothing constraint inside) placed member
  case h_8 =>
    refine placedAttributes_within (fun node given => ?_) placed member
    obtain ⟨value, found, rfl⟩ := List.mem_map.mp given
    exact here.second (Option.mem_toList.mp found)
  case h_9 =>
    split at member
    · split at member
      · rename_i fields found
        exact within found placed (List.mem_filter.mp member).1
      · exact itself placed member
    · cases member

/-- Each text of an option array stands at or below one of the items of the array, and the key of
that item says which domain the array fixes for it. -/
theorem placedTexts_within {convention : ChoiceConvention} {isField : String → Bool} {spot : Spot}
    {items : List (ArrayItem Node)} {mark : Mark}
    (here : StandsWithin file scope outer spot (.array items mark))
    {text : PlacedItem × Option String} (member : text ∈ placedTexts convention isField spot items) :
    ∃ index item, items[index]? = some item ∧ text.1.Within file scope (spot.child index) ∧
      text.2 = domainAtKey (translationDomain? items) item.keyText? := by
  obtain ⟨placed, atItem, member⟩ := List.mem_flatMap.mp member
  obtain ⟨found, inItem, rfl⟩ := List.mem_map.mp member
  have item := placedItems_within false here.self rfl placed atItem
  obtain ⟨index, bound, rfl⟩ := List.mem_mapIdx.mp atItem
  exact ⟨index, items[index], List.getElem?_eq_getElem bound,
    placedTextsOf_within _ isField (StandsWithin.self item) found inItem, rfl⟩

end Within

/-- The key and the value of a text stand below the option array that it is read from, and a key of
the array says which domain is fixed for it. -/
theorem mem_walk_of_mem_textItems {convention : ChoiceConvention} {isField : String → Bool}
    {items : List (ArrayItem Node)} (mark : Mark) {text : TextItem}
    (member : text ∈ textItems convention isField items) :
    (∀ key, text.item.key = some key → key ∈ walk [.array items mark]) ∧
      (∀ value, text.item.value = some value → value ∈ walk [.array items mark]) ∧
      ∃ key, text.domain = domainAtKey (translationDomain? items) key := by
  rw [← map_read_placedTexts convention isField ⟨0, []⟩ items] at member
  obtain ⟨placed, found, rfl⟩ := List.mem_map.mp member
  have array : StandsWithin [.array items mark] [.array items mark] ⟨0, []⟩ ⟨0, []⟩
      (.array items mark) := ⟨rfl, .refl _⟩
  obtain ⟨index, item, -, within, domain⟩ := placedTexts_within array found
  exact ⟨fun key read => mem_walk_of_standingAt? (within.key read).stands,
    fun value read => mem_walk_of_standingAt? (within.value read).stands, _, domain⟩

end FormHarvest
