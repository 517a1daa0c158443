import FormHarvest.Decimal.Shortest
import FormHarvest.DocComment.Tag
import FormHarvest.Extraction.Domain
import FormHarvest.Extraction.Scope

namespace FormHarvest

/-- A value that should be a text but cannot be read. -/
structure Diagnostic where
  path : String
  line : Int
  kind : String
  message : String
deriving DecidableEq

/-- The diagnostic for a value of a kind. -/
def Diagnostic.unreadable (path : String) (line : Int) (kind : String) : Diagnostic where
  path
  line
  kind
  message := s!"Unable to extract translation id for form label/title/placeholder from non-string values, but got \"{kind}\" in {path} on line {line}. Please refactor your code to pass a string, or add \"/** @Ignore */\"."

/-- What a value turns out to be: a text, something that is to be left out, or something that
should have been a text. -/
inductive Finding where
  | entry (entry : Entry)
  | nothing
  | diagnostic (diagnostic : Diagnostic)
deriving DecidableEq

namespace Finding

/-- The text of a number as it was written, or else as it is written shortest. -/
def numberText (value : NumberValue) (raw : String) : String :=
  if raw ≠ "" then raw
  else
    match value with
    | .whole n => toString n
    | .fraction x => x.text

/-- The text that a node stands for. -/
def text? : Node → Option String
  | .number value raw _ => some (numberText value raw)
  | node => node.knownString?

/-- Whether a value says that there is no text: it is missing, true, false, null or the text
`false`. -/
def meansNoText : Option Node → Bool
  | none => true
  | some node =>
    node.isConstant "false" || node.isConstant "true" || node.isConstant "null"
      || node.knownString? == some "false"

/-- The doc comment of an item: that before its key, or else that before its value. -/
def docOf (item : ArrayItem Node) : Option String :=
  ((item.key.bind Node.doc).filter (· != "")).or ((item.value.bind Node.doc).filter (· != ""))

/-- The line at which the value of an item starts. -/
def lineOf (item : ArrayItem Node) : Int := (item.value.map Node.line).getD item.mark.line

/-- The entry with what a directive says. -/
def withDirective (entry : Entry) : Directive → Entry
  | .ignore => entry
  | .desc text => { entry with desc := some text }
  | .meaning text => { entry with meaning := some text }
  | .altTrans text locale => { entry with translations := entry.translations.put locale text }

/-- Reads the value of an item, with the doc comment before it. -/
def ofItem (path : String) (item : ArrayItem Node) : Finding × List LogRecord :=
  let line := lineOf item
  let (directives, log) := readDirectives (docOf item) s!"file {path} near line {line}"
  let finding :=
    match item.value.bind text? with
    | some id => entry (directives.foldl withDirective { id, place := ⟨path, line⟩ })
    | none =>
      if directives.contains .ignore || meansNoText item.value then nothing
      else diagnostic (Diagnostic.unreadable path line (kindNameOf item.value))
  (finding, log)

end Finding

end FormHarvest
