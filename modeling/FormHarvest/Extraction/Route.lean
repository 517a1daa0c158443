import FormHarvest.Php.Node

namespace FormHarvest

/-- A station of the way through trees: a node with the number of nodes around it, or the end of a
class body. -/
inductive Waypoint where
  | visit (depth : Nat) (node : Node)
  | leave

namespace Waypoint

/-- How much of the way is still hidden behind a station. -/
noncomputable def weight : Waypoint → Nat
  | visit _ node => 2 * sizeOf node
  | leave => 1

/-- The stations directly behind a node: its parts, then the end of its body if it is a class. -/
def behind (depth : Nat) (node : Node) : List Waypoint :=
  node.children.map (visit (depth + 1)) ++ if node.isClassBody then [leave] else []

/-- The weight of stations all together. -/
noncomputable def totalWeight : List Waypoint → Nat
  | [] => 0
  | station :: rest => station.weight + totalWeight rest

@[simp] theorem totalWeight_nil : totalWeight [] = 0 := rfl

@[simp] theorem totalWeight_cons (station : Waypoint) (rest : List Waypoint) :
    totalWeight (station :: rest) = station.weight + totalWeight rest := rfl

@[simp] theorem totalWeight_append (first second : List Waypoint) :
    totalWeight (first ++ second) = totalWeight first + totalWeight second := by
  induction first with
  | nil => simp only [List.nil_append, totalWeight_nil, Nat.zero_add]
  | cons station rest ih => simp only [List.cons_append, totalWeight_cons, ih, Nat.add_assoc]

theorem totalWeight_visits (depth : Nat) (nodes : List Node) :
    totalWeight (nodes.map (visit depth)) = 2 * Node.totalSize nodes := by
  induction nodes with
  | nil => rfl
  | cons first rest ih =>
    simp only [List.map_cons, totalWeight_cons, Node.totalSize_cons, weight, ih]; omega

theorem totalWeight_behind_lt (depth : Nat) (node : Node) :
    totalWeight (behind depth node) < (visit depth node).weight := by
  have smaller := node.totalSize_children_lt
  have parts := totalWeight_visits (depth + 1) node.children
  simp only [behind, totalWeight_append, parts]
  split
  · simp only [totalWeight_cons, totalWeight_nil, weight]; omega
  · simp only [totalWeight_nil, weight]; omega

end Waypoint

/-- The whole way, given the stations that are known so far: behind each node come its parts. -/
def route : List Waypoint → List Waypoint
  | [] => []
  | .leave :: rest => .leave :: route rest
  | .visit depth node :: rest => .visit depth node :: route (Waypoint.behind depth node ++ rest)
termination_by known => Waypoint.totalWeight known
decreasing_by
  · simp only [Waypoint.totalWeight_cons, Waypoint.weight]; omega
  · have := Waypoint.totalWeight_behind_lt depth node
    simp only [Waypoint.totalWeight_append, Waypoint.totalWeight_cons]; omega

/-- The way through trees that stand beside each other. -/
def routeThrough (nodes : List Node) : List Waypoint := route (nodes.map (.visit 0))

end FormHarvest
