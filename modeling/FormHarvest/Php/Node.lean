import FormHarvest.Decimal.Double
import FormHarvest.Text.Lowercase

namespace FormHarvest

/-- The value of a number in a source. -/
inductive NumberValue where
  | whole (value : Int)
  | fraction (value : Double)
deriving DecidableEq

def NumberValue.negate : NumberValue → NumberValue
  | whole value => whole (-value)
  | fraction value => fraction value.negate

/-- Where a node starts, counted from one, and the doc comment directly before it. -/
structure Mark where
  line : Int := 0
  doc : Option String := none
deriving DecidableEq

/-- An item of an array literal: its key if it has one, its value, and how it is passed. -/
structure ArrayItem (ν : Type) where
  key : Option ν
  value : Option ν
  byRef : Bool := false
  unpack : Bool := false
  mark : Mark := {}
deriving Inhabited

/-- A syntax tree of PHP, as far as option maps are concerned. Everything that is no literal, call,
access, closure or class is an operation with a kind and operands. A source unit is a whole file; it
has no place inside another tree, and what walks over trees refuses it there. -/
inductive Node where
  | variable (name : String) (mark : Mark)
  | string (value : String) (interpolated : Bool) (mark : Mark)
  | number (value : NumberValue) (raw : String) (mark : Mark)
  | array (items : List (ArrayItem Node)) (mark : Mark)
  | item (content : ArrayItem Node)
  | methodCall (receiver : Node) (name : String) (args : List Node) (mark : Mark)
  | call (name : String) (callee : Option Node) (args : List Node) (mark : Mark)
  | staticCall (className name : String) (args : List Node) (mark : Mark)
  | creation (className : String) (args : List Node) (mark : Mark)
  | constant (name : String) (mark : Mark)
  | classConstant (className name : String) (mark : Mark)
  | property (receiver : Node) (name : String) (mark : Mark)
  | closure (body : List Node) (mark : Mark)
  | operation (kind : String) (operands : List Node) (mark : Mark)
  | classBody (name : String) (body : List Node) (mark : Mark)
  | sourceUnit (path : String) (nodes : List Node)
deriving Inhabited

namespace Node

/-- Where a node starts; a source unit starts nowhere. -/
def mark : Node → Mark
  | .variable _ mark => mark
  | .string _ _ mark => mark
  | .number _ _ mark => mark
  | .array _ mark => mark
  | .item content => content.mark
  | .methodCall _ _ _ mark => mark
  | .call _ _ _ mark => mark
  | .staticCall _ _ _ mark => mark
  | .creation _ _ mark => mark
  | .constant _ mark => mark
  | .classConstant _ _ mark => mark
  | .property _ _ mark => mark
  | .closure _ mark => mark
  | .operation _ _ mark => mark
  | .classBody _ _ mark => mark
  | .sourceUnit _ _ => {}

def line (node : Node) : Int := node.mark.line

def doc (node : Node) : Option String := node.mark.doc

/-- The node with another doc comment. -/
def withDoc (doc : Option String) : Node → Node
  | .variable name mark => .variable name { mark with doc }
  | .string value interpolated mark => .string value interpolated { mark with doc }
  | .number value raw mark => .number value raw { mark with doc }
  | .array items mark => .array items { mark with doc }
  | .item content => item { content with mark := { content.mark with doc } }
  | .methodCall receiver name args mark => .methodCall receiver name args { mark with doc }
  | .call name callee args mark => .call name callee args { mark with doc }
  | .staticCall className name args mark => .staticCall className name args { mark with doc }
  | .creation className args mark => .creation className args { mark with doc }
  | .constant name mark => .constant name { mark with doc }
  | .classConstant className name mark => .classConstant className name { mark with doc }
  | .property receiver name mark => .property receiver name { mark with doc }
  | .closure body mark => .closure body { mark with doc }
  | .operation kind operands mark => .operation kind operands { mark with doc }
  | .classBody name body mark => .classBody name body { mark with doc }
  | .sourceUnit path nodes => .sourceUnit path nodes

/-- The parts of a node in source order. -/
def children : Node → List Node
  | .array items _ => items.map .item
  | .item content => content.key.toList ++ content.value.toList
  | .methodCall receiver _ args _ => receiver :: args
  | .call _ callee args _ => callee.toList ++ args
  | .staticCall _ _ args _ => args
  | .creation _ args _ => args
  | .property receiver _ _ => [receiver]
  | .closure body _ => body
  | .operation _ operands _ => operands
  | .classBody _ body _ => body
  | _ => []

def isSourceUnit : Node → Bool
  | .sourceUnit _ _ => true
  | _ => false

def isClassBody : Node → Bool
  | .classBody _ _ _ => true
  | _ => false

/-- The size of nodes all together. -/
noncomputable def totalSize : List Node → Nat
  | [] => 0
  | node :: rest => sizeOf node + totalSize rest

@[simp] theorem totalSize_nil : totalSize [] = 0 := rfl

@[simp] theorem totalSize_cons (node : Node) (rest : List Node) :
    totalSize (node :: rest) = sizeOf node + totalSize rest := rfl

@[simp] theorem totalSize_append (first second : List Node) :
    totalSize (first ++ second) = totalSize first + totalSize second := by
  induction first with
  | nil => simp only [List.nil_append, totalSize_nil, Nat.zero_add]
  | cons node rest ih => simp only [List.cons_append, totalSize_cons, ih, Nat.add_assoc]

theorem totalSize_le (nodes : List Node) : totalSize nodes ≤ sizeOf nodes := by
  induction nodes with
  | nil => exact Nat.zero_le _
  | cons first rest ih => simp only [totalSize_cons, List.cons.sizeOf_spec]; omega

theorem totalSize_items_le (items : List (ArrayItem Node)) :
    totalSize (items.map item) ≤ sizeOf items := by
  induction items with
  | nil => exact Nat.zero_le _
  | cons first rest ih =>
    simp only [List.map_cons, totalSize_cons, List.cons.sizeOf_spec, item.sizeOf_spec]
    omega

theorem totalSize_toList_le (node : Option Node) : totalSize node.toList ≤ sizeOf node := by
  cases node with
  | none => exact Nat.zero_le _
  | some node =>
    simp only [Option.toList_some, totalSize_cons, totalSize_nil, Option.some.sizeOf_spec]
    omega

/-- The parts of a node are smaller than the node, even all together. -/
theorem totalSize_children_lt (node : Node) : totalSize node.children < sizeOf node := by
  have list (nodes : List Node) := totalSize_le nodes
  cases node with
  | array items mark =>
    have := totalSize_items_le items
    simp only [children, array.sizeOf_spec]; omega
  | item content =>
    have := totalSize_toList_le content.key
    have := totalSize_toList_le content.value
    obtain ⟨key, value, byRef, unpack, mark⟩ := content
    simp only [children, totalSize_append, item.sizeOf_spec, ArrayItem.mk.sizeOf_spec]
    simp_all only
    omega
  | methodCall receiver name args mark =>
    have := list args
    simp only [children, totalSize_cons, methodCall.sizeOf_spec]; omega
  | call name callee args mark =>
    have := list args
    have := totalSize_toList_le callee
    simp only [children, totalSize_append, call.sizeOf_spec]; omega
  | staticCall className name args mark =>
    have := list args
    simp only [children, staticCall.sizeOf_spec]; omega
  | creation className args mark =>
    have := list args
    simp only [children, creation.sizeOf_spec]; omega
  | property receiver name mark =>
    simp only [children, totalSize_cons, totalSize_nil, property.sizeOf_spec]; omega
  | closure body mark =>
    have := list body
    simp only [children, closure.sizeOf_spec]; omega
  | operation kind operands mark =>
    have := list operands
    simp only [children, operation.sizeOf_spec]; omega
  | classBody name body mark =>
    have := list body
    simp only [children, classBody.sizeOf_spec]; omega
  | _ =>
    simp only [children, totalSize_nil, variable.sizeOf_spec, string.sizeOf_spec,
      number.sizeOf_spec, constant.sizeOf_spec, classConstant.sizeOf_spec, sourceUnit.sizeOf_spec]
    omega

/-- The arguments of a node that is a call or a creation. -/
def callArguments? : Node → Option (List Node)
  | .methodCall _ _ args _ => some args
  | .call _ _ args _ => some args
  | .staticCall _ _ args _ => some args
  | .creation _ args _ => some args
  | _ => none

def isMethodCall : Node → Bool
  | .methodCall _ _ _ _ => true
  | _ => false

def isCall (node : Node) : Bool := node.callArguments?.isSome

/-- The value of a string that is known without running the program. -/
def knownString? : Node → Option String
  | .string value false _ => some value
  | _ => none

/-- Whether a node is the constant with the given name in small letters. -/
def isConstant (name : String) : Node → Bool
  | .constant written _ => lowercase written == name
  | _ => false

/-- The name of a kind of node in messages. -/
def kindName : Node → String
  | .variable _ _ => "Variable"
  | .string _ true _ => "InterpolatedString"
  | .string _ false _ => "StringLiteral"
  | .number _ _ _ => "NumberLiteral"
  | .array _ _ => "ArrayLiteral"
  | .item _ => "ArrayItem"
  | .methodCall _ _ _ _ => "MethodCall"
  | .call _ _ _ _ => "FuncCall"
  | .staticCall _ _ _ _ => "StaticCall"
  | .creation _ _ _ => "New"
  | .constant _ _ => "ConstFetch"
  | .classConstant _ _ _ => "ClassConstFetch"
  | .property _ _ _ => "PropertyFetch"
  | .closure _ _ => "Closure"
  | .operation _ _ _ => "Expression"
  | .classBody _ _ _ => "ClassBody"
  | .sourceUnit _ _ => "SourceUnit"

end Node

/-- The name of the kind of a part that may be missing. -/
def kindNameOf (node : Option Node) : String := (node.map Node.kindName).getD "None"

/-- The item with key and value exchanged. -/
def ArrayItem.inverted {ν : Type} (item : ArrayItem ν) : ArrayItem ν :=
  { item with key := item.value, value := item.key }

theorem ArrayItem.inverted_inverted {ν : Type} (item : ArrayItem ν) : item.inverted.inverted = item :=
  rfl

/-- Trees in the order in which a reader meets their nodes: each node before its parts. -/
def walk : List Node → List Node
  | [] => []
  | node :: rest => node :: walk (node.children ++ rest)
termination_by nodes => Node.totalSize nodes
decreasing_by
  have := node.totalSize_children_lt
  simp only [Node.totalSize_append, Node.totalSize_cons]
  omega

/-- The nodes of trees in the order of reading; none when a source unit stands among them. -/
def walkWhole? (nodes : List Node) : Option (List Node) :=
  let visited := walk nodes
  if visited.any Node.isSourceUnit then none else some visited

end FormHarvest
