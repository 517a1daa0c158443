import FormHarvest.Proofs.Forest

namespace FormHarvest

/-- A spot in trees that stand beside each other: the tree, and the way down through the parts. -/
structure Spot where
  top : Nat
  below : List Nat := []
deriving DecidableEq

def Spot.child (spot : Spot) (index : Nat) : Spot := { spot with below := spot.below ++ [index] }

/-- A node where it stands: its spot and the content of the innermost class around it. -/
structure Standing where
  spot : Spot
  scope : List Node
  node : Node

namespace Standing

/-- The content of the innermost class around the parts of a node. -/
def inside (standing : Standing) : List Node :=
  if standing.node.isClassBody then standing.node.children else standing.scope

/-- A part of a node where it stands. -/
def part? (standing : Standing) (index : Nat) : Option Standing :=
  standing.node.children[index]?.map fun node => ⟨standing.spot.child index, standing.inside, node⟩

end Standing

/-- The node at a spot of a file. Around the trees of a file stands no class but the file. -/
def standingAt? (nodes : List Node) (spot : Spot) : Option Standing :=
  nodes[spot.top]?.bind fun node => spot.below.foldlM Standing.part? ⟨⟨spot.top, []⟩, nodes, node⟩

theorem standingAt?_child (nodes : List Node) (spot : Spot) (index : Nat) :
    standingAt? nodes (spot.child index) = (standingAt? nodes spot).bind (·.part? index) := by
  cases top : nodes[spot.top]? with
  | none => simp only [standingAt?, Spot.child, top, Option.bind_none]
  | some node =>
    simp only [standingAt?, Spot.child, top, Option.bind_some, List.foldlM_append, List.foldlM_cons,
      List.foldlM_nil, bind_pure]
    rfl

/-- The nodes of trees in the order of reading, each where it stands. The first tree is the one with
the number `index` among its neighbours. -/
def placedFrom (scope : List Node) (spotOf : Nat → Spot) (index : Nat) : List Node → List Standing
  | [] => []
  | node :: rest =>
    let first : Standing := ⟨spotOf index, scope, node⟩
    first :: placedFrom first.inside first.spot.child 0 node.children
      ++ placedFrom scope spotOf (index + 1) rest
termination_by nodes => Node.totalSize nodes
decreasing_by
  · exact Node.totalSize_children_lt_cons node rest
  · exact Node.totalSize_lt_cons node rest

/-- The nodes of a file in the order of reading, each where it stands. -/
def placed (nodes : List Node) : List Standing := placedFrom nodes (⟨·, []⟩) 0 nodes

@[simp] theorem placedFrom_nil (scope : List Node) (spotOf : Nat → Spot) (index : Nat) :
    placedFrom scope spotOf index [] = [] := by rw [placedFrom]

theorem placedFrom_cons (scope : List Node) (spotOf : Nat → Spot) (index : Nat) (node : Node)
    (rest : List Node) :
    placedFrom scope spotOf index (node :: rest)
      = ⟨spotOf index, scope, node⟩
        :: placedFrom (if node.isClassBody then node.children else scope) (spotOf index).child 0
          node.children
        ++ placedFrom scope spotOf (index + 1) rest := by
  rw [placedFrom]
  rfl

theorem map_node_placedFrom (scope : List Node) (spotOf : Nat → Spot) (index : Nat)
    (nodes : List Node) : (placedFrom scope spotOf index nodes).map Standing.node = walk nodes := by
  induction nodes using Node.forest_induction generalizing scope spotOf index with
  | nil => rw [placedFrom_nil, walk_nil]; rfl
  | cons node rest inside behind =>
    simp only [placedFrom_cons, walk_cons, List.cons_append, List.map_cons, List.map_append, inside,
      behind]

theorem map_node_placed (nodes : List Node) : (placed nodes).map Standing.node = walk nodes :=
  map_node_placedFrom nodes _ 0 nodes

theorem standingAt?_of_mem_placedFrom {file scope : List Node} {spotOf : Nat → Spot} {index : Nat}
    {nodes : List Node} {standing : Standing}
    (here : ∀ i node, nodes[i]? = some node →
      standingAt? file (spotOf (index + i)) = some ⟨spotOf (index + i), scope, node⟩)
    (member : standing ∈ placedFrom scope spotOf index nodes) :
    standingAt? file standing.spot = some standing := by
  induction nodes using Node.forest_induction generalizing scope spotOf index with
  | nil => simp only [placedFrom_nil, List.not_mem_nil] at member
  | cons node rest inside behind =>
    rw [placedFrom_cons, List.cons_append, List.mem_cons, List.mem_append] at member
    have first := here 0 node rfl
    rcases member with rfl | member | member
    · exact first
    · refine inside ?_ member
      intro i part found
      rw [Nat.zero_add, standingAt?_child]
      rw [Nat.add_zero] at first
      rw [first, Option.bind_some, Standing.part?, found]
      rfl
    · refine behind ?_ member
      intro i other found
      have next := here (i + 1) other found
      rwa [← Nat.add_assoc, Nat.add_right_comm] at next

theorem standingAt?_of_mem_placed {nodes : List Node} {standing : Standing}
    (member : standing ∈ placed nodes) : standingAt? nodes standing.spot = some standing := by
  refine standingAt?_of_mem_placedFrom ?_ member
  intro i node found
  simp only [standingAt?, Nat.zero_add, found, Option.bind_some, List.foldlM_nil]
  rfl

theorem mem_walk_of_steps {below : List Nat} {start last : Standing}
    (steps : below.foldlM Standing.part? start = some last) : last.node ∈ walk [start.node] := by
  induction below generalizing start with
  | nil =>
    cases steps
    exact mem_walk_of_mem List.mem_cons_self
  | cons index rest ih =>
    rw [List.foldlM_cons] at steps
    obtain ⟨next, step, steps⟩ := Option.bind_eq_some_iff.mp steps
    obtain ⟨part, found, rfl⟩ := Option.map_eq_some_iff.mp step
    have inside : part ∈ walk [start.node] :=
      mem_walk_of_child (mem_walk_of_mem List.mem_cons_self) (List.mem_of_getElem? found)
    exact mem_walk_trans inside (ih steps)

theorem mem_walk_of_standingAt? {nodes : List Node} {spot : Spot} {standing : Standing}
    (stands : standingAt? nodes spot = some standing) : standing.node ∈ walk nodes := by
  obtain ⟨top, found, steps⟩ := Option.bind_eq_some_iff.mp stands
  exact mem_walk_trans (mem_walk_of_mem (List.mem_of_getElem? found)) (mem_walk_of_steps steps)

end FormHarvest
