import FormHarvest.Text.Blank
import FormHarvest.Text.Digit
import FormHarvest.Xml.Element

/-!
Reading an XML 1.0 document that has no document type declaration: its characters, its markup, the
nesting of its elements and their names in namespaces. `read?` gives the root element, or nothing
when the text is not well-formed.
-/

namespace FormHarvest

namespace Xml

/-- The characters that a document may hold. -/
def isCharacter (c : Char) : Bool :=
  inRanges [(0x9, 0xA), (0xD, 0xD), (0x20, 0xD7FF), (0xE000, 0xFFFD), (0x10000, 0x10FFFF)] c.toNat

/-- White space in markup and around the root. -/
def isSpace (c : Char) : Bool := c == ' ' || c == '\t' || c == '\n' || c == '\r'

/-- The characters with which a name may start. -/
def startsName (c : Char) : Bool :=
  inRanges [(0x3A, 0x3A), (0x41, 0x5A), (0x5F, 0x5F), (0x61, 0x7A), (0xC0, 0xD6), (0xD8, 0xF6),
    (0xF8, 0x2FF), (0x370, 0x37D), (0x37F, 0x1FFF), (0x200C, 0x200D), (0x2070, 0x218F),
    (0x2C00, 0x2FEF), (0x3001, 0xD7FF), (0xF900, 0xFDCF), (0xFDF0, 0xFFFD), (0x10000, 0xEFFFF)] c.toNat

/-- The characters with which a name may go on. -/
def continuesName (c : Char) : Bool :=
  startsName c || inRanges [(0x2D, 0x2E), (0x30, 0x39), (0xB7, 0xB7), (0x300, 0x36F),
    (0x203F, 0x2040)] c.toNat

/-- Every end of a line is one line feed, before anything else is read. -/
def unixLines : List Char → List Char
  | '\r' :: '\n' :: rest => '\n' :: unixLines rest
  | '\r' :: rest => '\n' :: unixLines rest
  | c :: rest => c :: unixLines rest
  | [] => []

/-- A name at the start of a text, and what stands behind it. -/
def name? : List Char → Option (List Char × List Char)
  | c :: rest =>
    if startsName c then some (c :: rest.takeWhile continuesName, rest.dropWhile continuesName) else none
  | [] => none

/-- The number that digits in a base write. -/
def number? (base : Nat) (digits : List Char) : Option Nat :=
  if digits.isEmpty then none
  else digits.foldlM (fun n c => ((hexValue? c).filter (· < base)).map (base * n + ·)) 0

/-- The character of a code point, if it may stand in a document. -/
def character? (codePoint : Nat) : Option Char :=
  if codePoint.isValidChar then (some (Char.ofNat codePoint)).filter isCharacter else none

/-- The character that a reference stands for, by the text between its ampersand and its semicolon.
Without a document type declaration there are five names. -/
def referred? : List Char → Option Char
  | '#' :: 'x' :: digits => (number? 16 digits).bind character?
  | '#' :: digits => (number? 10 digits).bind character?
  | name => [("amp", '&'), ("lt", '<'), ("gt", '>'), ("quot", '"'), ("apos", '\'')].lookup (String.ofList name)

/-- The character of the reference whose ampersand was read, and what stands behind it. -/
def reference? (text : List Char) : Option (Char × List Char) :=
  match text.dropWhile (· != ';') with
  | _ :: rest => (referred? (text.takeWhile (· != ';'))).map fun c => (c, rest)
  | [] => none

/-- The value of an attribute by what stands between its quotes: white space that is not written by a
reference counts as blanks. -/
def value? (text : List Char) : Option (List Char) :=
  match text with
  | [] => some []
  | '<' :: _ => none
  | '&' :: rest =>
    match reference? rest with
    | none => none
    | some (c, behind) =>
      if behind.length ≤ rest.length then (value? behind).map (c :: ·) else none
  | c :: rest => (value? rest).map ((if isSpace c then ' ' else c) :: ·)
termination_by text.length
decreasing_by all_goals simp only [List.length_cons]; omega

/-- An attribute with its value, and what stands behind it. -/
def attribute? (text : List Char) : Option ((String × String) × List Char) := do
  let (name, behind) ← name? text
  let '=' :: behind := behind.dropWhile isSpace | none
  let quote :: behind := behind.dropWhile isSpace | none
  if quote != '"' && quote != '\'' then none
  let _ :: after := behind.dropWhile (· != quote) | none
  let value ← value? (behind.takeWhile (· != quote))
  return ((String.ofList name, String.ofList value), after)

/-- The attributes up to the end of a tag or declaration, each behind white space. -/
def attributes? (text : List Char) : Option (List (String × String) × List Char) :=
  match text.dropWhile isSpace with
  | [] => none
  | c :: behind =>
    if c == '>' || c == '/' || c == '?' then some ([], c :: behind)
    else if !(text.head?.any isSpace) then none
    else
      match attribute? (c :: behind) with
      | none => none
      | some (first, after) =>
        if after.length < text.length then
          (attributes? after).map fun (others, rest) => (first :: others, rest)
        else none
termination_by text.length

end Xml

/-- What stands in a document one after the other: a character itself or by a reference, a section of
plain characters, the tags of elements, and comments and instructions, which are not looked at. -/
inductive XmlMark where
  | char (c : Char)
  | reference (c : Char)
  | plain (content : List Char)
  | opening (name : String) (attributes : List (String × String))
  | empty (name : String) (attributes : List (String × String))
  | closing (name : String)
  | aside
deriving DecidableEq

namespace Xml

/-- A start tag or an empty element, behind its bracket. -/
def opening? (text : List Char) : Option (XmlMark × List Char) := do
  let (name, behind) ← name? text
  let (attributes, behind) ← attributes? behind
  match behind with
  | '>' :: rest => some (.opening (String.ofList name) attributes, rest)
  | '/' :: '>' :: rest => some (.empty (String.ofList name) attributes, rest)
  | _ => none

/-- An end tag, behind its slash. -/
def closing? (text : List Char) : Option (XmlMark × List Char) := do
  let (name, behind) ← name? text
  match behind.dropWhile isSpace with
  | '>' :: rest => some (.closing (String.ofList name), rest)
  | _ => none

/-- What stands behind a comment, in which there are no two hyphens. -/
def behindComment? : List Char → Option (List Char)
  | '-' :: '-' :: '>' :: rest => some rest
  | '-' :: '-' :: _ => none
  | _ :: rest => behindComment? rest
  | [] => none

/-- The characters of a section up to its end, and what stands behind it. -/
def plain? : List Char → Option (List Char × List Char)
  | ']' :: ']' :: '>' :: rest => some ([], rest)
  | c :: rest => (plain? rest).map fun (content, behind) => (c :: content, behind)
  | [] => none

/-- What stands behind the end of an instruction. -/
def behindInstructionEnd? : List Char → Option (List Char)
  | '?' :: '>' :: rest => some rest
  | _ :: rest => behindInstructionEnd? rest
  | [] => none

/-- What stands behind an instruction. Its target has no colon and is not the name of the
declaration. -/
def behindInstruction? (text : List Char) : Option (List Char) := do
  let (target, behind) ← name? text
  if target.contains ':' || target.map Char.toLower == ['x', 'm', 'l'] then none
  else
    match behind with
    | '?' :: '>' :: rest => some rest
    | c :: rest => if isSpace c then behindInstructionEnd? rest else none
    | [] => none

/-- What stands at the start of a text, and the text behind it. -/
def mark? : List Char → Option (XmlMark × List Char)
  | '<' :: '/' :: rest => closing? rest
  | '<' :: '!' :: '-' :: '-' :: rest => (behindComment? rest).map fun behind => (.aside, behind)
  | '<' :: '!' :: '[' :: 'C' :: 'D' :: 'A' :: 'T' :: 'A' :: '[' :: rest =>
    (plain? rest).map fun (content, behind) => (.plain content, behind)
  | '<' :: '!' :: _ => none
  | '<' :: '?' :: rest => (behindInstruction? rest).map fun behind => (.aside, behind)
  | '<' :: rest => opening? rest
  | '&' :: rest => (reference? rest).map fun (c, behind) => (.reference c, behind)
  | ']' :: ']' :: '>' :: _ => none
  | c :: rest => some (.char c, rest)
  | [] => none

/-- All that stands in a text. -/
def marks? (text : List Char) : Option (List XmlMark) :=
  if text = [] then some []
  else
    match mark? text with
    | none => none
    | some (mark, rest) =>
      if rest.length < text.length then (marks? rest).map (mark :: ·) else none
termination_by text.length

/-- Whether attributes are those of a declaration: the version, and perhaps the encoding and whether
the document stands alone, in this order. -/
def declares (attributes : List (String × String)) : Bool :=
  let isVersion (value : String) : Bool :=
    match value.toList with
    | '1' :: '.' :: digits => !digits.isEmpty && digits.all Char.isDigit
    | _ => false
  let isEncoding (value : String) : Bool :=
    match value.toList with
    | c :: rest =>
      c.isAlpha && rest.all fun c => c.isAlphanum || c == '.' || c == '_' || c == '-'
    | [] => false
  let isAnswer (value : String) : Bool := value == "yes" || value == "no"
  match attributes with
  | [("version", version)] => isVersion version
  | [("version", version), ("encoding", encoding)] => isVersion version && isEncoding encoding
  | [("version", version), ("standalone", answer)] => isVersion version && isAnswer answer
  | [("version", version), ("encoding", encoding), ("standalone", answer)] =>
    isVersion version && isEncoding encoding && isAnswer answer
  | _ => false

/-- What stands behind the declaration of a document, if it has one. There are no references in a
declaration. -/
def behindDeclaration? (text : List Char) : Option (List Char) :=
  match text with
  | '<' :: '?' :: 'x' :: 'm' :: 'l' :: c :: rest =>
    if isSpace c then
      match attributes? (c :: rest) with
      | some (attributes, '?' :: '>' :: behind) =>
        let written := rest.take (rest.length - behind.length)
        if declares attributes && !written.contains '&' then some behind else none
      | _ => none
    else some text
  | _ => some text

end Xml

/-- A name in a namespace; the name of the namespace is empty when there is none. -/
structure XmlName where
  space : String
  name : String
deriving DecidableEq

/-- What stands in an element: characters and further elements. -/
inductive XmlItem where
  | char (c : Char)
  | element (name : XmlName) (attributes : List (XmlName × String)) (content : List XmlItem)

/-- The namespaces that are declared around a place, by their prefixes, the innermost first. The
default namespace has the empty prefix. -/
abbrev XmlScope := List (String × String)

namespace XmlScope

/-- The namespace of the names that every document knows. -/
def xmlSpace : String := "http://www.w3.org/XML/1998/namespace"

/-- The namespace of the attributes that declare namespaces. -/
def declarationSpace : String := "http://www.w3.org/2000/xmlns/"

/-- What is declared around the root of every document. -/
def ofDocument : XmlScope := [("xml", xmlSpace)]

/-- The prefix of a name, empty when it has none, and its local part. -/
def parts? (name : String) : Option (String × String) :=
  match piecesAt ':' name.toList with
  | [only] => some ("", String.ofList only)
  | [front, back] =>
    if front.isEmpty || !(back.head?.any Xml.startsName) then none
    else some (String.ofList front, String.ofList back)
  | _ => none

/-- The name of an element. Without a prefix it is in the default namespace. -/
def elementName? (scope : XmlScope) (name : String) : Option XmlName :=
  match parts? name with
  | some ("", back) => some ⟨(scope.lookup "").getD "", back⟩
  | some (front, back) => (scope.lookup front).map fun space => ⟨space, back⟩
  | none => none

/-- The name of an attribute. Without a prefix it is in no namespace. -/
def attributeName? (scope : XmlScope) (name : String) : Option XmlName :=
  match parts? name with
  | some ("", back) => some ⟨"", back⟩
  | some (front, back) => (scope.lookup front).map fun space => ⟨space, back⟩
  | none => none

/-- The prefix for which an attribute declares a namespace. -/
def declared? (name : String) : Option String :=
  if name = "xmlns" then some ""
  else
    match parts? name with
    | some ("xmlns", front) => some front
    | _ => none

/-- Whether a namespace may be declared for a prefix. -/
def mayDeclare (front space : String) : Bool :=
  (front == "xml") == (space == xmlSpace) && front != "xmlns" && space != declarationSpace
    && (front == "" || space != "")

end XmlScope

/-- What the tag of an element says: its name, its attributes, and the namespaces inside it. -/
structure XmlTag where
  name : XmlName
  attributes : List (XmlName × String)
  scope : XmlScope
deriving DecidableEq

/-- What a tag says in the scope around it. No attribute is written twice, neither by its written name
nor by its name in a namespace. -/
def XmlScope.tag? (scope : XmlScope) (name : String) (attributes : List (String × String)) :
    Option XmlTag :=
  let declarations := attributes.filterMap fun (name, space) => (declared? name).map fun front => (front, space)
  let others := attributes.filter fun (name, _) => (declared? name).isNone
  let inner : XmlScope := declarations ++ scope
  if (attributes.map Prod.fst).Nodup ∧ declarations.all fun (front, space) => mayDeclare front space then
    match inner.elementName? name, (others.map Prod.fst).mapM inner.attributeName? with
    | some name, some names =>
      if names.Nodup then some ⟨name, names.zip (others.map Prod.snd), inner⟩ else none
    | _, _ => none
  else none

/-- An element that is being read: its name as it is written, its tag, and what was read around it
before it, last item first. -/
structure XmlOpen where
  name : String
  tag : XmlTag
  before : List XmlItem

/-- Where the reader stands: what was read in the innermost element, last item first, and the elements
around it, the innermost first. -/
structure XmlReading where
  content : List XmlItem := []
  around : List XmlOpen := []

namespace XmlReading

/-- The namespaces that are declared where the reader stands. -/
def scope (reading : XmlReading) : XmlScope :=
  match reading.around with
  | [] => .ofDocument
  | inner :: _ => inner.tag.scope

def put (reading : XmlReading) (items : List XmlItem) : XmlReading :=
  { reading with content := items.reverse ++ reading.content }

/-- Reads on. Around the root there is only white space. -/
def step (reading : XmlReading) : XmlMark → Option XmlReading
  | .aside => some reading
  | .char c =>
    if reading.around.isEmpty then if Xml.isSpace c then some reading else none
    else some (reading.put [.char c])
  | .reference c => if reading.around.isEmpty then none else some (reading.put [.char c])
  | .plain content => if reading.around.isEmpty then none else some (reading.put (content.map .char))
  | .opening name attributes =>
    (reading.scope.tag? name attributes).map fun tag =>
      { around := ⟨name, tag, reading.content⟩ :: reading.around }
  | .empty name attributes =>
    (reading.scope.tag? name attributes).map fun tag =>
      reading.put [.element tag.name tag.attributes []]
  | .closing name =>
    match reading.around with
    | [] => none
    | inner :: around =>
      if inner.name = name then
        some { content := .element inner.tag.name inner.tag.attributes reading.content.reverse :: inner.before
               around }
      else none

/-- The root, when everything was read: all elements are closed, and there is one at the outside. -/
def root? (reading : XmlReading) : Option XmlItem :=
  match reading.content, reading.around with
  | [root], [] => some root
  | _, _ => none

end XmlReading

namespace Xml

/-- The root element of a document. -/
def read? (text : String) : Option XmlItem := do
  let characters := unixLines text.toList
  if !characters.all isCharacter then none
  let marks ← marks? (← behindDeclaration? characters)
  let reading ← marks.foldlM XmlReading.step {}
  reading.root?

/-- A document keeps to the rules of XML 1.0 and of namespaces. -/
def IsWellFormed (text : String) : Prop := (read? text).isSome

end Xml

end FormHarvest
