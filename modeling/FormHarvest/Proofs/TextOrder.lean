import FormHarvest.Php.Parser
import FormHarvest.Proofs.Scopes

namespace FormHarvest

namespace Node

/-- The parts of a node that are written before the node has its own sign. -/
def front : Node → List Node
  | .methodCall receiver _ _ _ => [receiver]
  | _ => []

/-- The parts that are written behind the sign. -/
def back : Node → List Node
  | .methodCall _ _ args _ => args
  | node => node.children

theorem front_append_back (node : Node) : node.front ++ node.back = node.children := by
  cases node <;> rfl

theorem front_of_isClassBody {node : Node} (isClass : node.isClassBody) :
    node.front = [] ∧ node.back = node.children := by
  cases node <;> first | exact ⟨rfl, rfl⟩ | cases isClass

theorem totalSize_front_lt (node : Node) (rest : List Node) :
    totalSize node.front < totalSize (node :: rest) := by
  have parts := totalSize_children_lt_cons node rest
  rw [← node.front_append_back, totalSize_append] at parts
  omega

theorem totalSize_back_lt (node : Node) (rest : List Node) :
    totalSize node.back < totalSize (node :: rest) := by
  have parts := totalSize_children_lt_cons node rest
  rw [← node.front_append_back, totalSize_append] at parts
  omega

end Node

/-- The nodes of trees in the order of the text: a method call stands where its name does, behind
what it is called on, and any other node before its parts. -/
def textOrder : List Node → List Node
  | [] => []
  | node :: rest => textOrder node.front ++ node :: textOrder node.back ++ textOrder rest
termination_by nodes => Node.totalSize nodes
decreasing_by
  · exact Node.totalSize_front_lt node rest
  · exact Node.totalSize_back_lt node rest
  · exact Node.totalSize_lt_cons node rest

/-- The nodes of trees that have no class of the trees around them, in the order of the text. -/
def ownTextOrder : List Node → List Node
  | [] => []
  | node :: rest =>
    ownTextOrder node.front ++ node :: (if node.isClassBody then [] else ownTextOrder node.back)
      ++ ownTextOrder rest
termination_by nodes => Node.totalSize nodes
decreasing_by
  · exact Node.totalSize_front_lt node rest
  · exact Node.totalSize_back_lt node rest
  · exact Node.totalSize_lt_cons node rest

@[simp] theorem textOrder_nil : textOrder [] = [] := by rw [textOrder]

theorem textOrder_cons (node : Node) (rest : List Node) :
    textOrder (node :: rest)
      = textOrder node.front ++ node :: textOrder node.back ++ textOrder rest := by
  rw [textOrder]

theorem textOrder_append (first second : List Node) :
    textOrder (first ++ second) = textOrder first ++ textOrder second := by
  induction first with
  | nil => simp only [List.nil_append, textOrder_nil]
  | cons node rest ih => simp only [List.cons_append, textOrder_cons, ih, List.append_assoc]

@[simp] theorem ownTextOrder_nil : ownTextOrder [] = [] := by rw [ownTextOrder]

theorem ownTextOrder_cons (node : Node) (rest : List Node) :
    ownTextOrder (node :: rest)
      = ownTextOrder node.front ++ node :: (if node.isClassBody then [] else ownTextOrder node.back)
        ++ ownTextOrder rest := by
  rw [ownTextOrder]

theorem textOrder_perm_walk (nodes : List Node) : (textOrder nodes).Perm (walk nodes) := by
  induction nodes using Node.forest_induction with
  | nil => simp only [textOrder_nil, walk_nil, List.Perm.refl]
  | cons node rest inside behind =>
    rw [← node.front_append_back, textOrder_append, node.front_append_back] at inside
    rw [textOrder_cons, walk_cons, List.append_assoc, List.cons_append]
    have first : (textOrder node.front ++ node :: (textOrder node.back ++ textOrder rest)).Perm
        (node :: (textOrder node.front ++ (textOrder node.back ++ textOrder rest))) :=
      List.perm_middle
    rw [← List.append_assoc] at first
    exact first.trans (.cons node (by simpa using inside.append behind))

theorem mem_textOrder {node : Node} {nodes : List Node} : node ∈ textOrder nodes ↔ node ∈ walk nodes :=
  (textOrder_perm_walk nodes).mem_iff

theorem ownTextOrder_sublist_textOrder (nodes : List Node) :
    (ownTextOrder nodes).Sublist (textOrder nodes) := by
  fun_induction textOrder nodes with
  | case1 => simp only [ownTextOrder_nil, List.Sublist.refl]
  | case2 node rest front back behind =>
    rw [ownTextOrder_cons]
    refine (front.append (.cons_cons node ?_)).append behind
    split
    · exact List.nil_sublist _
    · exact back

/-- What is written of a node itself: a string, a number or the name of a method that is called,
each with its line. -/
inductive Sign where
  | text (value : String) (interpolated : Bool) (line : Int)
  | number (raw : String) (line : Int)
  | call (name : String) (line : Int)
deriving DecidableEq

/-- The sign of a node without its parts. -/
def Node.sign? : Node → Option Sign
  | .string value interpolated mark => some (.text value interpolated mark.line)
  | .number _ raw mark => some (.number raw mark.line)
  | .methodCall _ name _ mark => some (.call name mark.line)
  | _ => none

/-- The signs of trees in the order of the text. -/
def signs (nodes : List Node) : List Sign := (textOrder nodes).filterMap Node.sign?

def Node.signs (node : Node) : List Sign := FormHarvest.signs [node]

@[simp] theorem signs_nil : signs [] = [] := by rw [signs, textOrder_nil]; rfl

@[simp] theorem signs_append (first second : List Node) :
    signs (first ++ second) = signs first ++ signs second := by
  rw [signs, textOrder_append, List.filterMap_append]
  rfl

@[simp] theorem signs_cons (node : Node) (rest : List Node) :
    signs (node :: rest) = node.signs ++ signs rest := signs_append [node] rest

namespace Node

theorem signs_eq (node : Node) :
    node.signs = FormHarvest.signs node.front ++ node.sign?.toList ++ FormHarvest.signs node.back := by
  rw [signs, FormHarvest.signs, textOrder_cons, textOrder_nil, List.append_nil,
    List.filterMap_append, List.filterMap_cons]
  split <;> rename_i sign <;> rw [sign] <;> simp [FormHarvest.signs]

theorem signs_eq_of_none {node : Node} (silent : node.sign? = none) :
    node.signs = FormHarvest.signs node.children := by
  rw [signs_eq, silent, Option.toList_none, List.append_nil, ← signs_append, front_append_back]

variable (mark : Mark) (name className : String) (nodes : List Node) (node : Node)

@[simp] theorem signs_variable : (Node.variable name mark).signs = [] :=
  (signs_eq_of_none rfl).trans signs_nil

@[simp] theorem signs_string (interpolated : Bool) :
    (string name interpolated mark).signs = [.text name interpolated mark.line] := by
  simp [signs_eq, front, sign?, back, children]

@[simp] theorem signs_number (value : NumberValue) :
    (number value name mark).signs = [.number name mark.line] := by
  simp [signs_eq, front, sign?, back, children]

@[simp] theorem signs_array (items : List (ArrayItem Node)) :
    (array items mark).signs = FormHarvest.signs (items.map .item) :=
  signs_eq_of_none rfl

@[simp] theorem signs_item (content : ArrayItem Node) :
    (item content).signs
      = FormHarvest.signs content.key.toList ++ FormHarvest.signs content.value.toList :=
  (signs_eq_of_none rfl).trans (signs_append _ _)

@[simp] theorem signs_methodCall :
    (methodCall node name nodes mark).signs
      = node.signs ++ .call name mark.line :: FormHarvest.signs nodes := by
  simp [signs_eq (methodCall node name nodes mark), front, sign?, back]

@[simp] theorem signs_call (callee : Option Node) :
    (call name callee nodes mark).signs
      = FormHarvest.signs callee.toList ++ FormHarvest.signs nodes :=
  (signs_eq_of_none rfl).trans (signs_append _ _)

@[simp] theorem signs_staticCall :
    (staticCall className name nodes mark).signs = FormHarvest.signs nodes :=
  signs_eq_of_none rfl

@[simp] theorem signs_creation : (creation className nodes mark).signs = FormHarvest.signs nodes :=
  signs_eq_of_none rfl

@[simp] theorem signs_constant : (constant name mark).signs = [] :=
  (signs_eq_of_none rfl).trans signs_nil

@[simp] theorem signs_classConstant : (classConstant className name mark).signs = [] :=
  (signs_eq_of_none rfl).trans signs_nil

@[simp] theorem signs_property : (property node name mark).signs = node.signs :=
  signs_eq_of_none rfl

@[simp] theorem signs_closure : (closure nodes mark).signs = FormHarvest.signs nodes :=
  signs_eq_of_none rfl

@[simp] theorem signs_operation : (operation name nodes mark).signs = FormHarvest.signs nodes :=
  signs_eq_of_none rfl

@[simp] theorem signs_classBody : (classBody name nodes mark).signs = FormHarvest.signs nodes :=
  signs_eq_of_none rfl

/-- A doc comment is no sign of a node. -/
@[simp] theorem signs_withDoc (doc : Option String) : (node.withDoc doc).signs = node.signs := by
  cases node <;> simp only [withDoc, signs_variable, signs_string, signs_number, signs_array,
    signs_item, signs_methodCall, signs_call, signs_staticCall, signs_creation, signs_constant,
    signs_classConstant, signs_property, signs_closure, signs_operation, signs_classBody]

end Node

end FormHarvest
