import FormHarvest.Proofs.Lexemes

namespace FormHarvest

/-! ### Trees without line numbers -/

def Mark.withoutLine (mark : Mark) : Mark := { mark with line := 0 }

namespace Node

mutual

/-- A tree with all line numbers set to zero. -/
def withoutLines : Node → Node
  | .variable name mark => .variable name mark.withoutLine
  | .string value interpolated mark => .string value interpolated mark.withoutLine
  | .number value raw mark => .number value raw mark.withoutLine
  | .array items mark => .array (itemsWithoutLines items) mark.withoutLine
  | .item content => .item (itemWithoutLines content)
  | .methodCall receiver name args mark =>
    .methodCall (withoutLines receiver) name (allWithoutLines args) mark.withoutLine
  | .call name callee args mark =>
    .call name (partWithoutLines callee) (allWithoutLines args) mark.withoutLine
  | .staticCall className name args mark =>
    .staticCall className name (allWithoutLines args) mark.withoutLine
  | .creation className args mark => .creation className (allWithoutLines args) mark.withoutLine
  | .constant name mark => .constant name mark.withoutLine
  | .classConstant className name mark => .classConstant className name mark.withoutLine
  | .property receiver name mark => .property (withoutLines receiver) name mark.withoutLine
  | .closure body mark => .closure (allWithoutLines body) mark.withoutLine
  | .operation kind operands mark => .operation kind (allWithoutLines operands) mark.withoutLine
  | .classBody name body mark => .classBody name (allWithoutLines body) mark.withoutLine
  | .sourceUnit path nodes => .sourceUnit path (allWithoutLines nodes)

def allWithoutLines : List Node → List Node
  | [] => []
  | node :: rest => withoutLines node :: allWithoutLines rest

def partWithoutLines : Option Node → Option Node
  | none => none
  | some node => some (withoutLines node)

def itemWithoutLines : ArrayItem Node → ArrayItem Node
  | ⟨key, value, byRef, unpack, mark⟩ =>
    ⟨partWithoutLines key, partWithoutLines value, byRef, unpack, mark.withoutLine⟩

def itemsWithoutLines : List (ArrayItem Node) → List (ArrayItem Node)
  | [] => []
  | first :: rest => itemWithoutLines first :: itemsWithoutLines rest

end

theorem allWithoutLines_eq_map (nodes : List Node) : allWithoutLines nodes = nodes.map withoutLines := by
  induction nodes with
  | nil => rfl
  | cons node rest ih => rw [allWithoutLines, ih, List.map_cons]

theorem itemsWithoutLines_eq_map (items : List (ArrayItem Node)) :
    itemsWithoutLines items = items.map itemWithoutLines := by
  induction items with
  | nil => rfl
  | cons item rest ih => rw [itemsWithoutLines, ih, List.map_cons]

end Node
/-! ### The language of option maps -/

/-- A member of an object: a name, or a variable that holds the name. -/
inductive Member where
  | named (name : Identifier)
  | held (name : Identifier)

/-- An item of an array literal. Only a key that is a text has a doc comment. -/
inductive ItemOf (ε : Type) where
  | keyed (key value : ε)
  | documented (doc : DocBody) (key : String) (value : ε)
  | unkeyed (value : ε)
  | spread (value : ε)

/-- The expressions that option maps are made of. -/
inductive Expression where
  | var (name : Identifier)
  | string (text : String)
  | number (negative : Bool) (numeral : Numeral)
  | constant (name : Name)
  | classConstant (className : Name) (name : Identifier)
  | array (long : Bool) (items : List (ItemOf Expression))
  | call (name : Name) (args : List Expression)
  | callOf (callee : Expression) (args : List Expression)
  | staticCall (className : Name) (name : Identifier) (args : List Expression)
  | methodCall (receiver : Expression) (member : Member) (args : List Expression)
  | property (receiver : Expression) (member : Member)
  | staticProperty (className : Name) (name : Identifier)
  | creation (className : Name) (args : List Expression)

/-- A method of a class with the expressions that are its statements. -/
structure Method where
  name : Identifier
  body : List Expression

/-- A statement of a source: an expression or a class with its methods. -/
inductive Statement where
  | expression (expression : Expression)
  | classBody (name : Identifier) (methods : List Method)

/-! ### Trees -/

def Name.text (name : Name) : String := name.path.text

def Member.text : Member → String
  | named name => name.text
  | held name => "$" ++ name.text

namespace Expression

mutual

/-- The tree of an expression, on no line. -/
def node : Expression → Node
  | .var name => .variable name.text {}
  | .string text => .string text false {}
  | .number false numeral => .number (.whole numeral.value) numeral.text {}
  | .number true numeral => .number (.whole (-numeral.value)) ("-" ++ numeral.text) {}
  | .constant name => .constant name.text {}
  | .classConstant className name => .classConstant className.text name.text {}
  | .array _ items => .array (itemNodes items) {}
  | .call name args => .call name.text none (nodes args) {}
  | .callOf callee args => .call "" (some (node callee)) (nodes args) {}
  | .staticCall className name args => .staticCall className.text name.text (nodes args) {}
  | .methodCall receiver member args => .methodCall (node receiver) member.text (nodes args) {}
  | .property receiver member => .property (node receiver) member.text {}
  | .staticProperty className name =>
    .property (.constant className.text {}) ("$" ++ name.text) {}
  | .creation className args => .creation className.text (nodes args) {}

def nodes : List Expression → List Node
  | [] => []
  | expression :: rest => node expression :: nodes rest

def itemNode : ItemOf Expression → ArrayItem Node
  | .keyed key value => { key := some (node key), value := some (node value) }
  | .documented doc key value =>
    { key := some (.string key false { doc := some doc.text }), value := some (node value) }
  | .unkeyed value => { key := none, value := some (node value) }
  | .spread value => { key := none, value := some (node value), unpack := true }

def itemNodes : List (ItemOf Expression) → List (ArrayItem Node)
  | [] => []
  | first :: rest => itemNode first :: itemNodes rest

end

/-! ### Text -/

/-- Whether an expression needs no parentheses before an access or, if it is called, before its
arguments. -/
def isOpen (called : Bool) : Expression → Bool
  | .number _ _ | .creation _ _ => false
  | .constant _ | .classConstant _ _ | .property _ _ | .staticProperty _ _ => !called
  | _ => true

end Expression

/-- A word as it is written, without a namespace. -/
def Identifier.lexeme (name : Identifier) : Lexeme := .name ⟨false, name, []⟩

def Member.lexeme : Member → Lexeme
  | named name => name.lexeme
  | held name => .var name

/-- The keyword of an array in its long form. -/
def arrayWord : Identifier := ⟨'a', "rray".toList, by decide, by decide⟩

def newWord : Identifier := ⟨'n', "ew".toList, by decide, by decide⟩

def classWord : Identifier := ⟨'c', "lass".toList, by decide, by decide⟩

def publicWord : Identifier := ⟨'p', "ublic".toList, by decide, by decide⟩

def functionWord : Identifier := ⟨'f', "unction".toList, by decide, by decide⟩

/-- Lexemes with a comma between two parts. -/
def separated : List (List Lexeme) → List Lexeme
  | [] => []
  | [last] => last
  | first :: rest => first ++ .sign .comma :: separated rest

def parenthesised (inside : List Lexeme) : List Lexeme :=
  .sign .openParen :: (inside ++ [.sign .closeParen])

namespace Expression

mutual

/-- An expression as it is written. -/
def lexemes : Expression → List Lexeme
  | .var name => [.var name]
  | .string text => [.string text]
  | .number false numeral => [.number numeral]
  | .number true numeral => [.sign .minus, .number numeral]
  | .constant name => [.name name.path]
  | .classConstant className name => [.name className.path, .sign .doubleColon, name.lexeme]
  | .array false items => .sign .openBracket :: (separated (itemPieces items) ++ [.sign .closeBracket])
  | .array true items => arrayWord.lexeme :: parenthesised (separated (itemPieces items))
  | .call name args => .name name.path :: parenthesised (separated (pieces args))
  | .callOf callee args =>
    (if callee.isOpen true then lexemes callee else parenthesised (lexemes callee)) ++
      parenthesised (separated (pieces args))
  | .staticCall className name args =>
    .name className.path :: .sign .doubleColon :: name.lexeme :: parenthesised (separated (pieces args))
  | .methodCall receiver member args =>
    (if receiver.isOpen false then lexemes receiver else parenthesised (lexemes receiver)) ++
      .sign .arrow :: member.lexeme :: parenthesised (separated (pieces args))
  | .property receiver member =>
    (if receiver.isOpen false then lexemes receiver else parenthesised (lexemes receiver)) ++
      [.sign .arrow, member.lexeme]
  | .staticProperty className name => [.name className.path, .sign .doubleColon, .var name]
  | .creation className args =>
    newWord.lexeme :: .name className.path :: parenthesised (separated (pieces args))

def pieces : List Expression → List (List Lexeme)
  | [] => []
  | expression :: rest => lexemes expression :: pieces rest

def itemLexemes : ItemOf Expression → List Lexeme
  | .keyed key value => lexemes key ++ .sign .doubleArrow :: lexemes value
  | .documented doc key value => .doc doc :: .string key :: .sign .doubleArrow :: lexemes value
  | .unkeyed value => lexemes value
  | .spread value => .sign .ellipsis :: lexemes value

def itemPieces : List (ItemOf Expression) → List (List Lexeme)
  | [] => []
  | first :: rest => itemLexemes first :: itemPieces rest

end

mutual

/-- How deep an expression nests: arguments, items and what stands in parentheses or behind a minus
sign lie one level deeper. -/
def nesting : Expression → Nat
  | .number negative _ => if negative then 1 else 0
  | .array _ items => itemsNesting items
  | .call _ args => argsNesting args
  | .callOf callee args =>
    max (if callee.isOpen true then nesting callee else nesting callee + 1) (argsNesting args)
  | .staticCall _ _ args => argsNesting args
  | .methodCall receiver _ args =>
    max (if receiver.isOpen false then nesting receiver else nesting receiver + 1) (argsNesting args)
  | .property receiver _ => if receiver.isOpen false then nesting receiver else nesting receiver + 1
  | .creation _ args => argsNesting args
  | _ => 0

def argsNesting : List Expression → Nat
  | [] => 0
  | expression :: rest => max (nesting expression + 1) (argsNesting rest)

def itemNesting : ItemOf Expression → Nat
  | .keyed key value => max (nesting key) (nesting value) + 1
  | .documented _ _ value | .unkeyed value | .spread value => nesting value + 1

def itemsNesting : List (ItemOf Expression) → Nat
  | [] => 0
  | first :: rest => max (itemNesting first) (itemsNesting rest)

end

end Expression

/-! ### Statements -/

/-- An expression with the semicolon that makes it a statement. -/
def Expression.statementLexemes (expression : Expression) : List Lexeme :=
  expression.lexemes ++ [.sign .semicolon]

/-- The greatest of some depths. -/
def deepest (depths : List Nat) : Nat := depths.foldr max 0

theorem le_deepest {depths : List Nat} {depth : Nat} (member : depth ∈ depths) : depth ≤ deepest depths := by
  induction depths with
  | nil => cases member
  | cons first depths ih =>
    simp only [deepest, List.foldr_cons]
    rcases List.mem_cons.mp member with rfl | member
    · exact Nat.le_max_left _ _
    · exact Nat.le_trans (ih member) (Nat.le_max_right _ _)

namespace Method

def nodes (method : Method) : List Node := method.body.map Expression.node

def lexemes (method : Method) : List Lexeme :=
  [publicWord.lexeme, functionWord.lexeme, method.name.lexeme, .sign .openParen, .sign .closeParen,
    .sign .openBrace] ++ (method.body.flatMap Expression.statementLexemes ++ [.sign .closeBrace])

def nesting (method : Method) : Nat := deepest (method.body.map Expression.nesting) + 1

end Method

namespace Statement

/-- The tree of a statement. A class holds the expressions of all its methods. -/
def node : Statement → Node
  | .expression value => value.node
  | .classBody name methods => .classBody name.text (methods.flatMap Method.nodes) {}

def lexemes : Statement → List Lexeme
  | .expression value => value.statementLexemes
  | .classBody name methods =>
    [classWord.lexeme, name.lexeme, .sign .openBrace] ++
      (methods.flatMap Method.lexemes ++ [.sign .closeBrace])

def nesting : Statement → Nat
  | .expression value => value.nesting
  | .classBody _ methods => deepest (methods.map Method.nesting) + 1

end Statement

/-- Statements as a PHP source. -/
def sourceText (statements : List Statement) : String :=
  phpSource (statements.flatMap Statement.lexemes)

end FormHarvest
