namespace FormHarvest

/-- An element of an XML document: it holds a text or further elements. Attributes keep their
order. -/
inductive Xml where
  | leaf (name : String) (attributes : List (String × String)) (text : String)
  | branch (name : String) (attributes : List (String × String)) (children : List Xml)
deriving Inhabited

namespace Xml

/-- A character of a text: the signs of markup are written by name. -/
def escapedTextChar (c : Char) : List Char :=
  if c == '&' then "&amp;".toList
  else if c == '<' then "&lt;".toList
  else if c == '>' then "&gt;".toList
  else [c]

/-- A character of an attribute: as in a text, and the quote and what ends or indents a line are
written by name or number. -/
def escapedAttributeChar (c : Char) : List Char :=
  if c == '"' then "&quot;".toList
  else if c == '\r' then "&#13;".toList
  else if c == '\n' then "&#10;".toList
  else if c == '\t' then "&#09;".toList
  else escapedTextChar c

/-- A name and its value in quotes. -/
def writtenAttribute : String × String → List Char
  | (name, value) =>
    ' ' :: name.toList ++ ['=', '"'] ++ value.toList.flatMap escapedAttributeChar ++ ['"']

/-- The opening tag up to its closing bracket. -/
def opening (name : String) (attributes : List (String × String)) : List Char :=
  '<' :: name.toList ++ attributes.flatMap writtenAttribute

def closing (name : String) : List Char := '<' :: '/' :: name.toList ++ ['>']

/-- A new line at a depth, indented by two spaces a level. -/
def lineAt (depth : Nat) : List Char := '\n' :: List.replicate (2 * depth) ' '

mutual

/-- An element that stands at a depth. One that holds nothing has no closing tag; one that holds
elements has each of them on lines of their own. -/
def writtenAt (depth : Nat) : Xml → List Char
  | leaf name attributes text =>
    opening name attributes ++
      if text = "" then [' ', '/', '>']
      else '>' :: text.toList.flatMap escapedTextChar ++ closing name
  | branch name attributes [] => opening name attributes ++ [' ', '/', '>']
  | branch name attributes (first :: rest) =>
    opening name attributes ++ '>' :: lineAt (depth + 1) ++ writtenAt (depth + 1) first
      ++ writtenSiblings (depth + 1) rest ++ lineAt depth ++ closing name

/-- The further elements at a depth. -/
def writtenSiblings (depth : Nat) : List Xml → List Char
  | [] => []
  | first :: rest => lineAt depth ++ writtenAt depth first ++ writtenSiblings depth rest

end

/-- A document with its root. -/
def document (root : Xml) : String :=
  "<?xml version=\"1.0\" encoding=\"utf-8\"?>\n" ++ String.ofList (writtenAt 0 root) ++ "\n"

end Xml

end FormHarvest
