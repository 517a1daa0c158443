import FormHarvest.Text.Ranges

namespace FormHarvest

/-- The code points of white space in every script, with the four ASCII separators. -/
def blankRanges : List (Nat × Nat) := [
  (9, 13), (28, 32), (133, 133), (160, 160), (5760, 5760), (8192, 8202), (8232, 8233),
  (8239, 8239), (8287, 8287), (12288, 12288)]

/-- White space of any script. -/
def isBlank (c : Char) : Bool := inRanges blankRanges c.toNat

/-- White space that may surround a numeral: all but the four ASCII separators. -/
def isNumeralBlank (c : Char) : Bool := isBlank c && !(28 ≤ c.toNat && c.toNat ≤ 31)

/-- The text without the characters of a class at both of its ends. -/
def trimBoth (drop : Char → Bool) (text : List Char) : List Char :=
  ((text.dropWhile drop).reverse.dropWhile drop).reverse

/-- The characters that end a line. -/
def isLineEnd (c : Char) : Bool :=
  inRanges [(10, 13), (28, 30), (133, 133), (8232, 8233)] c.toNat

/-- The lines of a text without their ends, given what was read of the first one, last character
first. A carriage return and the line feed after it are one end; an end that closes the text opens
no further line. -/
def linesFrom (read : List Char) : List Char → List (List Char)
  | [] => if read.isEmpty then [] else [read.reverse]
  | '\r' :: '\n' :: rest => read.reverse :: linesFrom [] rest
  | c :: rest => if isLineEnd c then read.reverse :: linesFrom [] rest else linesFrom (c :: read) rest

/-- The lines of a text without their ends. -/
def textLines (text : List Char) : List (List Char) := linesFrom [] text

/-- The pieces of a text between the occurrences of one character. -/
def piecesAt (mark : Char) : List Char → List (List Char)
  | [] => [[]]
  | c :: rest =>
    if c == mark then [] :: piecesAt mark rest
    else
      match piecesAt mark rest with
      | [] => [[c]]
      | first :: others => (c :: first) :: others

/-- The pieces joined again by a separator. -/
def joinWith (separator : List Char) : List (List Char) → List Char
  | [] => []
  | [last] => last
  | first :: rest => first ++ separator ++ joinWith separator rest

theorem piecesAt_ne_nil (mark : Char) (text : List Char) : piecesAt mark text ≠ [] := by
  induction text with
  | nil => simp [piecesAt]
  | cons c rest ih =>
    unfold piecesAt
    split
    · simp
    · split <;> simp

/-- Joining undoes splitting. -/
theorem joinWith_piecesAt (mark : Char) (text : List Char) :
    joinWith [mark] (piecesAt mark text) = text := by
  induction text with
  | nil => simp [piecesAt, joinWith]
  | cons c rest ih =>
    unfold piecesAt
    split
    · rename_i same
      have := piecesAt_ne_nil mark rest
      cases pieces : piecesAt mark rest with
      | nil => exact absurd pieces this
      | cons first others => simp_all [joinWith]
    · cases pieces : piecesAt mark rest with
      | nil => exact absurd pieces (piecesAt_ne_nil mark rest)
      | cons first others => cases others <;> simp_all [joinWith]

/-- The text with every occurrence of a mark of two characters replaced, from left to right. -/
def replacePair (first second : Char) (put : List Char) : List Char → List Char
  | a :: b :: rest =>
    if a == first && b == second then put ++ replacePair first second put rest
    else a :: replacePair first second put (b :: rest)
  | short => short

end FormHarvest
