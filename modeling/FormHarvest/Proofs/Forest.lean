import FormHarvest.Php.Node

namespace FormHarvest

namespace Node

theorem totalSize_children_lt_cons (node : Node) (rest : List Node) :
    totalSize node.children < totalSize (node :: rest) := by
  have := node.totalSize_children_lt
  simp only [totalSize_cons]
  omega

theorem totalSize_lt_cons (node : Node) (rest : List Node) :
    totalSize rest < totalSize (node :: rest) := by
  have := node.totalSize_children_lt
  simp only [totalSize_cons]
  omega

/-- Trees beside each other are a first tree, its parts and the trees behind it. -/
@[elab_as_elim]
theorem forest_induction {motive : List Node → Prop} (nil : motive [])
    (cons : ∀ node rest, motive node.children → motive rest → motive (node :: rest))
    (nodes : List Node) : motive nodes :=
  match nodes with
  | [] => nil
  | node :: rest =>
    cons node rest (forest_induction nil cons node.children) (forest_induction nil cons rest)
termination_by totalSize nodes
decreasing_by
  · exact totalSize_children_lt_cons node rest
  · exact totalSize_lt_cons node rest

/-- How many nodes stand inside each other at most. -/
def height : List Node → Nat
  | [] => 0
  | node :: rest => max (height node.children + 1) (height rest)
termination_by nodes => totalSize nodes
decreasing_by
  · exact totalSize_children_lt_cons node rest
  · exact totalSize_lt_cons node rest

end Node

/-- The list that keeps what is still to be visited comes to the same as going down every tree. -/
theorem walk_append (first second : List Node) :
    walk (first ++ second) = walk first ++ walk second := by
  fun_induction walk first with
  | case1 => rfl
  | case2 node rest ih =>
    rw [List.cons_append, walk, ← List.append_assoc, ih]
    rfl

@[simp] theorem walk_nil : walk [] = [] := by rw [walk]

theorem walk_cons (node : Node) (rest : List Node) :
    walk (node :: rest) = node :: (walk node.children ++ walk rest) := by
  rw [walk, walk_append]

theorem mem_walk_cons {node first : Node} {rest : List Node} :
    node ∈ walk (first :: rest) ↔
      node = first ∨ node ∈ walk first.children ∨ node ∈ walk rest := by
  rw [walk_cons, List.mem_cons, List.mem_append]

theorem mem_walk_of_mem {node : Node} {nodes : List Node} (member : node ∈ nodes) :
    node ∈ walk nodes := by
  induction nodes with
  | nil => cases member
  | cons first rest ih =>
    rw [mem_walk_cons]
    rcases List.mem_cons.mp member with same | behind
    · exact .inl same
    · exact .inr (.inr (ih behind))

/-- What is met in the parts of a node that is met is met too. -/
theorem mem_walk_of_children {inner node : Node} {nodes : List Node} (outside : node ∈ walk nodes)
    (inside : inner ∈ walk node.children) : inner ∈ walk nodes := by
  induction nodes using Node.forest_induction with
  | nil => simp only [walk_nil, List.not_mem_nil] at outside
  | cons first rest within behind =>
    rw [mem_walk_cons] at outside ⊢
    rcases outside with rfl | outside | outside
    · exact .inr (.inl inside)
    · exact .inr (.inl (within outside))
    · exact .inr (.inr (behind outside))

theorem mem_walk_trans {inner node : Node} {nodes : List Node} (outside : node ∈ walk nodes)
    (inside : inner ∈ walk [node]) : inner ∈ walk nodes := by
  rcases mem_walk_cons.mp inside with rfl | inside | behind
  · exact outside
  · exact mem_walk_of_children outside inside
  · simp only [walk_nil, List.not_mem_nil] at behind

theorem mem_walk_of_child {inner node : Node} {nodes : List Node} (outside : node ∈ walk nodes)
    (inside : inner ∈ node.children) : inner ∈ walk nodes :=
  mem_walk_of_children outside (mem_walk_of_mem inside)

end FormHarvest
