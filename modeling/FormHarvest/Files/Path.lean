import FormHarvest.Text.Blank

namespace FormHarvest

/-- The name of a place in a file system: from where it starts (from the current folder when the
root is empty) and the names on the way. Empty names and single dots are left out; double dots
stay. -/
structure Path where
  root : String := ""
  parts : List String := []
deriving DecidableEq

namespace Path

/-- The root that a text names: two slashes at its start are kept, more of them are one. -/
def rootOf : List Char → String
  | '/' :: '/' :: '/' :: _ => "/"
  | ['/', '/'] => "//"
  | '/' :: '/' :: _ => "//"
  | '/' :: _ => "/"
  | _ => ""

/-- The path that a text stands for. -/
def ofText (text : String) : Path where
  root := rootOf text.toList
  parts := ((piecesAt '/' text.toList).map String.ofList).filter fun part => part != "" && part != "."

/-- The path as a text; the current folder is a single dot. -/
def text (path : Path) : String :=
  let joined := path.root ++ String.intercalate "/" path.parts
  if joined = "" then "." else joined

def isAbsolute (path : Path) : Bool := path.root != ""

/-- The last name of a path. -/
def name (path : Path) : String := path.parts.getLast?.getD ""

/-- The path without its last name. -/
def parent (path : Path) : Path := { path with parts := path.parts.dropLast }

/-- A path from inside another one. An absolute path stays what it is. -/
def join (path other : Path) : Path :=
  if other.isAbsolute then other else { path with parts := path.parts ++ other.parts }

/-- The ending of a name: from its last dot on, unless that is its first or last character. -/
def endingOf (name : List Char) : List Char :=
  let last := (name.reverse.takeWhile (· != '.')).reverse
  if last.isEmpty || name.length ≤ last.length + 1 then [] else '.' :: last

/-- The path with another ending of its last name; none when it has no last name. -/
def withEnding? (path : Path) (ending : String) : Option Path :=
  if path.name = "" then none
  else
    let name := path.name.toList
    let stem := name.take (name.length - (endingOf name).length)
    some { path with parts := path.parts.dropLast ++ [String.ofList stem ++ ending] }

end Path

end FormHarvest
