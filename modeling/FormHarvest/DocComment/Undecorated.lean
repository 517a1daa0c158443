import FormHarvest.Text.Blank

namespace FormHarvest

/-- The text without a leading part, if it starts with it. -/
def withoutLeading? (lead text : List Char) : Option (List Char) :=
  if lead.isPrefixOf text then some (text.drop lead.length) else none

/-- A line of a comment without the asterisk in front and one blank behind that. -/
def undecoratedLine (line : List Char) : List Char :=
  match line.dropWhile isBlank with
  | '*' :: blank :: rest => if isBlank blank then rest else blank :: rest
  | ['*'] => []
  | _ => line

/-- What a comment says: its text without the comment signs and without the asterisks that open
its lines. -/
def commentText (comment : List Char) : List Char :=
  let trimmed := trimBoth isBlank comment
  let opened := (withoutLeading? ['/', '*', '*'] trimmed).getD
    ((withoutLeading? ['/', '*'] trimmed).getD trimmed)
  let inside := ((withoutLeading? ['/', '*'] opened.reverse).map List.reverse).getD opened
  joinWith ['\n'] ((textLines inside).map undecoratedLine)

end FormHarvest
