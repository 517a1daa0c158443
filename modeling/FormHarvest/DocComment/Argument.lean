import FormHarvest.Text.Blank
import FormHarvest.Text.Lowercase
import FormHarvest.Text.Word

namespace FormHarvest

/-- An argument of a tag, with the name in small letters before its equals sign if it has
one. -/
structure TagArgument where
  key : Option String
  value : String
deriving DecidableEq

namespace TagArgument

/-- What stands in double quotes and what follows it, given the text behind the opening quote. Two
quotes together belong to the text, unless nothing closes it after them: then the first of them
does. A backslash takes the character after it along, which cannot be a line feed. -/
def doubleQuoted? : List Char → Option (List Char × List Char)
  | [] => none
  | '"' :: '"' :: rest =>
    match doubleQuoted? rest with
    | some (inside, after) => some ('"' :: '"' :: inside, after)
    | none => some ([], '"' :: rest)
  | '"' :: rest => some ([], rest)
  | ['\\'] => none
  | '\\' :: c :: rest =>
    if c == '\n' then none
    else (doubleQuoted? rest).map fun (inside, after) => ('\\' :: c :: inside, after)
  | c :: rest => (doubleQuoted? rest).map fun (inside, after) => (c :: inside, after)

/-- What stands in single quotes and what follows it, given the text behind the opening quote. -/
def singleQuoted? : List Char → Option (List Char × List Char)
  | [] => none
  | '\'' :: rest => some ([], rest)
  | ['\\'] => none
  | '\\' :: c :: rest =>
    if c == '\n' then none
    else (singleQuoted? rest).map fun (inside, after) => ('\\' :: c :: inside, after)
  | c :: rest => (singleQuoted? rest).map fun (inside, after) => (c :: inside, after)

theorem length_of_doubleQuoted? {text inside after : List Char}
    (found : doubleQuoted? text = some (inside, after)) : after.length < text.length := by
  fun_induction doubleQuoted? text generalizing inside after <;>
    grind [Option.map_eq_some_iff]

theorem length_of_singleQuoted? {text inside after : List Char}
    (found : singleQuoted? text = some (inside, after)) : after.length < text.length := by
  fun_induction singleQuoted? text generalizing inside after <;>
    grind [Option.map_eq_some_iff]

/-- What a value without quotes is made of. -/
def isBare (c : Char) : Bool := !(c == ',' || c == ')' || isBlank c)

/-- The value of a quoted text: a doubled quote, and a quote behind a backslash, is one quote; two
backslashes are one. -/
def unquotedText (quote : Char) (inside : List Char) : List Char :=
  replacePair '\\' '\\' ['\\']
    (replacePair '\\' quote [quote] (replacePair quote quote [quote] inside))

/-- A value as written and what follows it: in quotes, or else up to a comma, a closing parenthesis
or a blank. -/
def written? (text : List Char) : Option (List Char × List Char) :=
  let bare := text.takeWhile isBare
  let unquoted := if bare.isEmpty then none else some (bare, text.dropWhile isBare)
  match text with
  | '"' :: rest =>
    ((doubleQuoted? rest).map fun (inside, after) => ('"' :: inside ++ ['"'], after)).or unquoted
  | '\'' :: rest =>
    ((singleQuoted? rest).map fun (inside, after) => ('\'' :: inside ++ ['\''], after)).or unquoted
  | _ => unquoted

/-- The value that was written; without quotes it stands for itself. -/
def valueOf (written : List Char) : List Char :=
  match written with
  | first :: inside =>
    if (first == '"' || first == '\'') && inside.getLast? == some first then
      unquotedText first inside.dropLast
    else written
  | [] => []

theorem length_dropWhile_le (drop : Char → Bool) (text : List Char) :
    (text.dropWhile drop).length ≤ text.length :=
  (List.dropWhile_suffix drop).length_le

theorem length_of_written? {text written after : List Char}
    (found : written? text = some (written, after)) : after.length < text.length := by
  have bare (taken : text.takeWhile isBare ≠ []) :
      (text.dropWhile isBare).length < text.length := by
    have both := congrArg List.length (List.takeWhile_append_dropWhile (p := isBare) (l := text))
    have := List.length_pos_iff.mpr taken
    simp only [List.length_append] at both
    omega
  unfold written? at found
  split at found
  · have := @length_of_doubleQuoted?
    grind [Option.map_eq_some_iff, Option.or_eq_some_iff]
  · have := @length_of_singleQuoted?
    grind [Option.map_eq_some_iff, Option.or_eq_some_iff]
  · grind

/-- The name before an equals sign and what follows that sign and the blanks around it. -/
def key? (text : List Char) : Option (List Char × List Char) :=
  match text with
  | first :: _ =>
    if first.isAlpha || first == '_' then
      match (text.dropWhile isWord).dropWhile isBlank with
      | '=' :: rest => some (text.takeWhile isWord, rest.dropWhile isBlank)
      | _ => none
    else none
  | [] => none

theorem length_of_key? {text key after : List Char} (found : key? text = some (key, after)) :
    after.length ≤ text.length := by
  cases text with
  | nil => simp [key?] at found
  | cons first rest =>
    have word := length_dropWhile_le isWord (first :: rest)
    have gap := length_dropWhile_le isBlank ((first :: rest).dropWhile isWord)
    simp only [key?] at found
    split at found
    · split at found
      · rename_i value eq
        have trimmed := length_dropWhile_le isBlank value
        simp only [Option.some.injEq, Prod.mk.injEq] at found
        obtain ⟨-, rfl⟩ := found
        rw [eq, List.length_cons] at gap
        omega
      · simp at found
    · simp at found

/-- One argument and what follows it and the blanks behind it. A name counts only if a value can be
read after its equals sign. -/
def read? (text : List Char) : Option (TagArgument × List Char) :=
  let start := text.dropWhile isBlank
  let named := (key? start).bind fun (key, rest) =>
    (written? rest).map fun (written, after) =>
      (⟨some (lowercase (String.ofList key)), String.ofList (valueOf written)⟩,
        after.dropWhile isBlank)
  named.or ((written? start).map fun (written, after) =>
    (⟨none, String.ofList (valueOf written)⟩, after.dropWhile isBlank))

theorem length_of_read? {text rest : List Char} {argument : TagArgument}
    (found : read? text = some (argument, rest)) : rest.length < text.length := by
  have start := length_dropWhile_le isBlank text
  have trimmed (after : List Char) := length_dropWhile_le isBlank after
  simp only [read?, Option.or_eq_some_iff, Option.bind_eq_some_iff, Option.map_eq_some_iff,
    Prod.mk.injEq, Prod.exists] at found
  rcases found with ⟨key, afterKey, isKey, written, after, isWritten, -, rfl⟩
    | ⟨-, written, after, isWritten, -, rfl⟩
  · have := length_of_key? isKey
    have := length_of_written? isWritten
    have := trimmed after
    omega
  · have := length_of_written? isWritten
    have := trimmed after
    omega

/-- What stands between arguments. -/
def isSeparator (c : Char) : Bool := c == ',' || c == ' ' || c == '\t' || c == '\r' || c == '\n'

/-- The arguments up to the closing parenthesis and what follows it, given the text behind the
opening one; none when it is never closed. -/
def readAll? (text : List Char) : Option (List TagArgument × List Char) :=
  match text with
  | [] => none
  | c :: rest =>
    if c == ')' then some ([], rest)
    else if isSeparator c then readAll? rest
    else
      match _found : read? (c :: rest) with
      | none => none
      | some (argument, after) =>
        (readAll? after).map fun (arguments, rest) => (argument :: arguments, rest)
termination_by text.length
decreasing_by
  · simp_all
  · exact length_of_read? _found

theorem length_of_readAll? {text rest : List Char} {arguments : List TagArgument}
    (found : readAll? text = some (arguments, rest)) : rest.length < text.length := by
  have := @length_of_read?
  fun_induction readAll? text generalizing arguments rest <;>
    grind [Option.map_eq_some_iff]

end TagArgument

end FormHarvest
