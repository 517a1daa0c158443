import FormHarvest.DocComment.Argument
import FormHarvest.DocComment.Undecorated
import FormHarvest.DocComment.Directive
import FormHarvest.Log

namespace FormHarvest

/-- A tag of a doc comment: its name as written, with the namespaces before it, and its
arguments. There are none when the parenthesis that opens them is never closed. -/
structure DocTag where
  name : List Char
  arguments : Option (List TagArgument)
deriving DecidableEq

namespace DocTag

/-- What the name of a tag is made of. -/
def isNameCharacter (c : Char) : Bool := isWord c || c == '\\'

/-- Whether a name starts here. -/
def startsName (text : List Char) : Bool := text.head?.any fun c => c.isAlpha || c == '_'

/-- What stands behind a name and the blanks after it. -/
def afterName (text : List Char) : List Char := (text.dropWhile isNameCharacter).dropWhile isBlank

theorem length_afterName_le (text : List Char) : (afterName text).length ≤ text.length :=
  ((List.dropWhile_suffix isBlank).trans (List.dropWhile_suffix isNameCharacter)).length_le

/-- The tags of a text in order. Behind arguments that are never closed the search goes on
after their opening parenthesis. -/
def allIn (text : List Char) : List DocTag :=
  match text with
  | [] => []
  | '@' :: rest =>
    if startsName rest then
      let name := rest.takeWhile isNameCharacter
      match _behind : afterName rest with
      | '(' :: inside =>
        match _closed : TagArgument.readAll? inside with
        | some (arguments, after) => ⟨name, some arguments⟩ :: allIn after
        | none => ⟨name, none⟩ :: allIn inside
      | after => ⟨name, some []⟩ :: allIn after
    else allIn rest
  | _ :: rest => allIn rest
termination_by text.length
decreasing_by
  · have name := length_afterName_le rest
    have := TagArgument.length_of_readAll? _closed
    rw [_behind, List.length_cons] at name
    grind
  · have name := length_afterName_le rest
    rw [_behind, List.length_cons] at name
    grind
  · have := length_afterName_le rest
    grind
  · simp
  · simp

/-- The name without namespaces, in small letters. -/
def shortName (tag : DocTag) : String :=
  lowercase (String.ofList (tag.name.reverse.takeWhile (· != '\\')).reverse)

/-- The names that mean something here. -/
def knownNames : List String := ["ignore", "desc", "meaning", "alttrans"]

def isKnown (tag : DocTag) : Bool := knownNames.contains tag.shortName

/-- The arguments without names. -/
def positional (arguments : List TagArgument) : List String :=
  (arguments.filter (·.key.isNone)).map (·.value)

/-- The last argument with a name. -/
def named? (arguments : List TagArgument) (key : String) : Option String :=
  (arguments.reverse.find? (·.key == some key)).map (·.value)

/-- The directive that a name and its arguments stand for. The text comes first or by name; a
translation also has a language, by name or second. -/
def directive? (name : String) (arguments : List TagArgument) : Option Directive :=
  let plain := positional arguments
  let text? := plain.head?.or ((named? arguments "text").or (named? arguments "value"))
  match name, text? with
  | "ignore", _ => some .ignore
  | "desc", some text => some (.desc text)
  | "meaning", some text => some (.meaning text)
  | "alttrans", some text =>
    let byName := (named? arguments "locale").filter (· != "")
    (byName.or (plain[1]?.filter (· != ""))).map (.altTrans text)
  | _, _ => none

end DocTag

/-- The directives of a doc comment that stands at a place, and what is logged about those that
cannot be used. -/
def readDirectives (comment : Option String) (place : String) : List Directive × List LogRecord :=
  let tags := DocTag.allIn (commentText (comment.getD "").toList)
  let directives := tags.filterMap fun tag =>
    tag.arguments.bind (DocTag.directive? tag.shortName)
  let log := tags.filterMap fun tag =>
    let shown := String.ofList tag.name
    if !tag.isKnown then none
    else
      match tag.arguments with
      | none => some ⟨.debug, .annotations,
          s!"Skipping malformed @{shown} in {place}: unterminated annotation arguments"⟩
      | some arguments =>
        match DocTag.directive? tag.shortName arguments with
        | none => some ⟨.debug, .annotations, s!"Skipping @{shown} without text in {place}"⟩
        | some _ => none
  (directives, log)

end FormHarvest
