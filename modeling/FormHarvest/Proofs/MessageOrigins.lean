import FormHarvest.Proofs.CatalogueInvariant
import FormHarvest.Proofs.OnePass
import FormHarvest.Proofs.TextSpots

namespace FormHarvest

theorem exists_of_translationDomain? {items : List (ArrayItem Node)} {domain : String} (mark : Mark)
    (named : translationDomain? items = some domain) :
    ∃ node ∈ walk [.array items mark], node.knownString? = some domain := by
  obtain ⟨item, atItem, read⟩ := List.mem_filterMap.mp (List.mem_of_getLast? named)
  split at read
  · obtain ⟨value, present, known⟩ := Option.bind_eq_some_iff.mp read
    refine ⟨value, ?_, known⟩
    have atArray : Node.item item ∈ walk [.array items mark] :=
      mem_walk_of_child (mem_walk_of_mem List.mem_cons_self) (List.mem_map.mpr ⟨item, atItem, rfl⟩)
    exact mem_walk_of_child atArray (by simp [Node.children, present])
  · cases read

theorem exists_of_defaultDomain? {nodes : List Node} {node : Node} {domain : String}
    (member : node ∈ walk nodes) (given : node.defaultDomain? = some domain) :
    ∃ inner ∈ walk nodes, inner.knownString? = some domain := by
  cases node with
  | methodCall receiver name args mark =>
    simp only [Node.defaultDomain?] at given
    split at given
    · obtain ⟨items, first, named⟩ := Option.bind_eq_some_iff.mp given
      obtain ⟨options, head, array⟩ := Option.bind_eq_some_iff.mp first
      obtain ⟨position, rfl⟩ := Node.eq_array_of_arrayItems? array
      obtain ⟨inner, inArray, known⟩ := exists_of_translationDomain? position named
      have atOptions : Node.array items position ∈ walk nodes :=
        mem_walk_of_child member (.tail _ (List.mem_of_head? head))
      exact ⟨inner, mem_walk_trans atOptions inArray, known⟩
    · cases given
  | _ => cases given

theorem exists_of_defaultDomainOf {scope : List Node} {domain : String}
    (given : defaultDomainOf scope = some domain) :
    ∃ inner ∈ walk scope, inner.knownString? = some domain := by
  obtain ⟨call, member, sets⟩ := List.mem_filterMap.mp (List.mem_of_getLast? given)
  exact exists_of_defaultDomain? ((ownNodes_sublist_walk scope).subset member) sets

/-- The class around a node is a part of the file. -/
theorem mem_walk_of_mem_scope {file scope : List Node} {spotOf : Nat → Spot} {index : Nat}
    {nodes : List Node} {standing : Standing} (member : standing ∈ placedFrom scope spotOf index nodes)
    (within : ∀ node ∈ walk nodes, node ∈ walk file) (around : ∀ node ∈ walk scope, node ∈ walk file) :
    ∀ node ∈ walk standing.scope, node ∈ walk file := by
  induction nodes using Node.forest_induction generalizing scope spotOf index with
  | nil => simp only [placedFrom_nil, List.not_mem_nil] at member
  | cons first rest inside behind =>
    rw [placedFrom_cons, List.cons_append, List.mem_cons, List.mem_append] at member
    have parts : ∀ node ∈ walk first.children, node ∈ walk file := fun node found =>
      within node (mem_walk_cons.mpr (.inr (.inl found)))
    rcases member with rfl | member | member
    · exact around
    · refine inside member parts fun node found => ?_
      split at found
      · exact parts node found
      · exact around node found
    · exact behind member (fun node found => within node (mem_walk_cons.mpr (.inr (.inr found)))) around

/-- A message of a file comes from a literal of the file: it has the text and the place of the
literal. Its domain is none, that of texts about invalid input, or a string of the file. -/
structure Message.ComesFrom (path : String) (nodes : List Node) (message : Message) : Prop where
  literal : ∃ value ∈ walk nodes, Finding.text? value = some message.id ∧
    message.places = [⟨path, value.line⟩]
  domain : message.domain = none ∨ message.domain = some constraintDomain ∨
    ∃ node ∈ walk nodes, ∃ domain, node.knownString? = some domain ∧ message.domain = some domain

namespace Extractor

variable {extractor : Extractor} {path : String} {nodes : List Node}

theorem comesFrom_of_mem_declaredMessages {message : Message}
    (member : message ∈ extractor.declaredMessages path nodes) : message.ComesFrom path nodes := by
  obtain ⟨standing, placed, member⟩ := List.mem_flatMap.mp member
  obtain ⟨reading, read, rfl⟩ := List.mem_map.mp member
  have atNode : standing.node ∈ walk nodes := by
    rw [← map_node_placed]
    exact List.mem_map.mpr ⟨standing, placed, rfl⟩
  unfold readings at read
  split at read
  case h_2 => cases read
  rename_i items array
  obtain ⟨mark, isArray⟩ := Node.eq_array_of_arrayItems? array
  have inArray : ∀ node ∈ walk [.array items mark], node ∈ walk nodes := fun node found =>
    mem_walk_trans atNode (isArray ▸ found)
  obtain ⟨text, atText, read⟩ := List.mem_filterMap.mp read
  obtain ⟨value, present, isText, place, domain⟩ := readItem?_eq_some read
  obtain ⟨-, values, key, fixed⟩ := mem_walk_of_mem_textItems mark atText
  refine ⟨⟨value, inArray value (values value present), isText, congrArg (fun place => [place]) place⟩, ?_⟩
  have written (known : String) (there : ∃ node ∈ walk nodes, node.knownString? = some known) :
      ∃ node ∈ walk nodes, ∃ domain, node.knownString? = some domain ∧ some known = some domain := by
    obtain ⟨node, atString, isString⟩ := there
    exact ⟨node, atString, known, isString, rfl⟩
  simp only [TextReading.under, Entry.inDomain, domain, fixed, domainAtKey]
  split
  · exact .inr (.inl rfl)
  · cases named : translationDomain? items with
    | some known =>
      obtain ⟨node, atString, isString⟩ := exists_of_translationDomain? mark named
      exact .inr (.inr (written known ⟨node, inArray node atString, isString⟩))
    | none =>
      rw [Option.none_or]
      cases given : defaultDomainOf standing.scope with
      | none => exact .inl rfl
      | some known =>
        obtain ⟨node, atString, isString⟩ := exists_of_defaultDomainOf given
        have inFile := mem_walk_of_mem_scope placed (fun _ found => found) (fun _ found => found)
        exact .inr (.inr (written known ⟨node, inFile node atString, isString⟩))

theorem comesFrom_of_mem_addedMessages {message : Message}
    (member : message ∈ extractor.addedMessages path nodes) : message.ComesFrom path nodes :=
  comesFrom_of_mem_declaredMessages
    ((extractor.addedMessages_perm_declaredMessages path nodes).subset member)

end Extractor

end FormHarvest
