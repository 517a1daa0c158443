import FormHarvest.Proofs.Forest

namespace FormHarvest

namespace Node

theorem sizeOf_le_totalSize {node : Node} {nodes : List Node} (member : node ∈ nodes) :
    sizeOf node ≤ totalSize nodes := by
  induction nodes with
  | nil => cases member
  | cons first rest ih =>
    rw [totalSize_cons]
    rcases List.mem_cons.mp member with rfl | behind
    · exact Nat.le_add_right _ _
    · exact Nat.le_add_left_of_le (ih behind)

theorem sizeOf_lt_of_mem_children {part node : Node} (member : part ∈ node.children) : sizeOf part < sizeOf node :=
  Nat.lt_of_le_of_lt (sizeOf_le_totalSize member) node.totalSize_children_lt

/-- The nodes of a tree as a recursion meets them: the node itself, then those of its parts, one part
after the other. -/
def preorder (node : Node) : List Node :=
  node :: node.children.attach.flatMap fun part => part.1.preorder
termination_by sizeOf node
decreasing_by exact sizeOf_lt_of_mem_children part.2

theorem preorder_eq (node : Node) : node.preorder = node :: node.children.flatMap preorder := by
  rw [preorder, List.flatMap_subtype (g := preorder) fun _ _ => rfl, List.unattach_attach]

end Node

/-- The list of trees that are still to be visited gives every tree as the recursion does. -/
theorem walk_eq_flatMap_preorder (nodes : List Node) : walk nodes = nodes.flatMap Node.preorder := by
  induction nodes using Node.forest_induction with
  | nil => exact walk_nil
  | cons node rest inside behind =>
    rw [walk_cons, inside, behind, List.flatMap_cons, node.preorder_eq, List.cons_append]

theorem walkWhole?_singleton {node : Node} (noUnit : ∀ inner ∈ walk [node], inner.isSourceUnit = false) :
    walkWhole? [node] = some node.preorder := by
  have whole : ¬(walk [node]).any Node.isSourceUnit = true := by simpa using noUnit
  rw [walkWhole?, if_neg whole, walk_eq_flatMap_preorder, List.flatMap_singleton]

/-- Trees without source units are each listed as the recursion meets their nodes. -/
theorem mapM_walkWhole? {nodes : List Node} (noUnit : ∀ node ∈ walk nodes, node.isSourceUnit = false) :
    (nodes.mapM fun node => walkWhole? [node]) = some (nodes.map Node.preorder) := by
  induction nodes with
  | nil => rfl
  | cons first rest ih =>
    rw [← List.singleton_append, walk_append] at noUnit
    have atFirst := walkWhole?_singleton fun inner member => noUnit inner (List.mem_append_left _ member)
    have behind := ih fun inner member => noUnit inner (List.mem_append_right _ member)
    rw [List.mapM_cons, atFirst, behind]
    rfl

namespace Node

/-- The node at a place among trees that stand beside each other. A place is the number of a tree, then
that of one of its parts, and so on down to the node. -/
def at? (nodes : List Node) : List Nat → Option Node
  | [] => none
  | [index] => nodes[index]?
  | index :: next :: rest => nodes[index]?.bind fun node => at? node.children (next :: rest)

/-- The places of all nodes in the order of reading, when the first tree has the number `index`. -/
def placesFrom (index : Nat) : List Node → List (List Nat)
  | [] => []
  | node :: rest =>
    [index] :: (placesFrom 0 node.children).map (index :: ·) ++ placesFrom (index + 1) rest
termination_by nodes => totalSize nodes
decreasing_by
  · exact totalSize_children_lt_cons node rest
  · exact totalSize_lt_cons node rest

/-- The places of all nodes in the order of reading. -/
def places (nodes : List Node) : List (List Nat) := placesFrom 0 nodes

section Places

variable {index : Nat} {place : List Nat} {nodes : List Node}

theorem placesFrom_cons (index : Nat) (node : Node) (rest : List Node) :
    placesFrom index (node :: rest)
      = [index] :: ((places node.children).map (index :: ·) ++ placesFrom (index + 1) rest) := by
  rw [placesFrom, places, List.cons_append]

theorem index_le_of_mem_placesFrom (member : place ∈ placesFrom index nodes) :
    ∃ number rest, place = number :: rest ∧ index ≤ number := by
  induction nodes generalizing index with
  | nil => simp only [placesFrom, List.not_mem_nil] at member
  | cons node rest ih =>
    rw [placesFrom_cons, List.mem_cons, List.mem_append, List.mem_map] at member
    rcases member with rfl | ⟨inner, -, rfl⟩ | behind
    · exact ⟨index, [], rfl, Nat.le_refl _⟩
    · exact ⟨index, inner, rfl, Nat.le_refl _⟩
    · obtain ⟨number, rest, same, later⟩ := ih behind
      exact ⟨number, rest, same, Nat.le_of_succ_le later⟩

theorem at?_cons_of_ne_nil {inner : List Nat} (further : inner ≠ []) (index : Nat) :
    at? nodes (index :: inner) = nodes[index]?.bind fun node => at? node.children inner := by
  cases inner with
  | nil => exact absurd rfl further
  | cons next rest => rw [at?]

theorem ne_nil_of_mem_places (member : place ∈ places nodes) : place ≠ [] := by
  obtain ⟨number, rest, rfl, -⟩ := index_le_of_mem_placesFrom member
  exact List.cons_ne_nil _ _

/-- At the places stand the nodes in the order of reading. -/
theorem map_at?_placesFrom (front nodes : List Node) :
    (placesFrom front.length nodes).map (at? (front ++ nodes)) = (walk nodes).map some := by
  induction nodes using forest_induction generalizing front with
  | nil => rw [placesFrom, walk_nil]; rfl
  | cons node rest inside behind =>
    have there : (front ++ node :: rest)[front.length]? = some node := by simp
    have parts : ((places node.children).map (front.length :: ·)).map (at? (front ++ node :: rest))
        = (walk node.children).map some := by
      rw [← inside [], List.map_map]
      refine List.map_congr_left fun place member => ?_
      rw [Function.comp_apply, at?_cons_of_ne_nil (ne_nil_of_mem_places member), there]
      rfl
    have others : (placesFrom (front.length + 1) rest).map (at? (front ++ node :: rest)) = (walk rest).map some := by
      have shifted := behind (front ++ [node])
      rwa [List.length_append, List.append_assoc] at shifted
    rw [placesFrom_cons, walk_cons, List.map_cons, List.map_cons, List.map_append, List.map_append, parts, others, at?,
      there]

theorem map_at?_places (nodes : List Node) : (places nodes).map (at? nodes) = (walk nodes).map some :=
  map_at?_placesFrom [] nodes

/-- Every place at which a node stands is listed. -/
theorem mem_placesFrom_of_at? {number : Nat} {inner : List Nat} (stands : (at? nodes (number :: inner)).isSome)
    (index : Nat) : (index + number) :: inner ∈ placesFrom index nodes := by
  induction nodes using forest_induction generalizing index number inner with
  | nil =>
    cases inner <;> simp [at?] at stands
  | cons node rest inside behind =>
    rw [placesFrom_cons, List.mem_cons, List.mem_append, List.mem_map]
    cases number with
    | zero =>
      cases inner with
      | nil => exact .inl rfl
      | cons next further =>
        refine .inr (.inl ⟨next :: further, ?_, rfl⟩)
        have below : (at? node.children (next :: further)).isSome := by simpa [at?] using stands
        simpa [places] using inside below 0
    | succ number =>
      have later : (at? rest (number :: inner)).isSome := by
        cases inner <;> simpa [at?] using stands
      have member := behind later (index + 1)
      rw [Nat.add_assoc, Nat.add_comm 1] at member
      exact .inr (.inr member)

theorem mem_places_iff : place ∈ places nodes ↔ (at? nodes place).isSome := by
  constructor
  · intro member
    have stands : at? nodes place ∈ (walk nodes).map some := map_at?_places nodes ▸ List.mem_map_of_mem member
    obtain ⟨node, -, there⟩ := List.mem_map.mp stands
    rw [← there]
    rfl
  · intro stands
    cases place with
    | nil => cases stands
    | cons number inner => simpa [places] using mem_placesFrom_of_at? stands 0

/-- The places come in their order as words: each before those below it, and these before its later
neighbours. So none comes twice. -/
theorem pairwise_placesFrom (index : Nat) (nodes : List Node) : (placesFrom index nodes).Pairwise (· < ·) := by
  induction nodes using forest_induction generalizing index with
  | nil => rw [placesFrom]; exact .nil
  | cons node rest inside behind =>
    have below : ((places node.children).map (index :: ·)).Pairwise (· < ·) :=
      (inside 0).map _ fun first second before => List.cons_lt_cons_iff.mpr (.inr ⟨rfl, before⟩)
    have later : ∀ place ∈ placesFrom (index + 1) rest, ∀ inner, index :: inner < place := by
      intro place member inner
      obtain ⟨number, further, rfl, after⟩ := index_le_of_mem_placesFrom member
      exact List.cons_lt_cons_iff.mpr (.inl after)
    rw [placesFrom_cons, List.pairwise_cons, List.pairwise_append]
    refine ⟨fun place member => ?_, below, behind (index + 1), fun first member second after => ?_⟩
    · rcases List.mem_append.mp member with member | after
      · obtain ⟨inner, part, rfl⟩ := List.mem_map.mp member
        obtain ⟨number, further, rfl, -⟩ := index_le_of_mem_placesFrom part
        exact List.cons_lt_cons_iff.mpr (.inr ⟨rfl, List.nil_lt_cons _ _⟩)
      · exact later place after []
    · obtain ⟨inner, -, rfl⟩ := List.mem_map.mp member
      exact later second after inner

end Places

end Node

end FormHarvest
