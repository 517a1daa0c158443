import FormHarvest.DocComment.Tag
import FormHarvest.Proofs.WrittenWords

namespace FormHarvest

/-! ### Quoted arguments -/

namespace TagArgument

/-- Whether a character needs a backslash in front of it between double quotes. -/
def needsSlash (c : Char) : Bool := c == '\\' || c == '"'

/-- A text with a backslash before each backslash and each double quote. -/
def slashed : List Char → List Char
  | [] => []
  | c :: rest => if needsSlash c then '\\' :: c :: slashed rest else c :: slashed rest

/-- A text as it is written for an argument. -/
def quoted (text : List Char) : List Char := '"' :: (slashed text ++ ['"'])

theorem slashed_of_needsSlash {c : Char} (special : needsSlash c = true) (rest : List Char) :
    slashed (c :: rest) = '\\' :: c :: slashed rest := by simp [slashed, special]

theorem slashed_of_plain {c : Char} (plain : needsSlash c = false) (rest : List Char) :
    slashed (c :: rest) = c :: slashed rest := by simp [slashed, plain]

theorem ne_of_plain {c : Char} (plain : needsSlash c = false) : c ≠ '\\' ∧ c ≠ '"' := by
  simpa [needsSlash] using plain

theorem all_slashed {p : Char → Bool} (slash : p '\\' = true) (text : List Char) :
    (slashed text).all p = text.all p := by
  induction text with
  | nil => rfl
  | cons c text ih =>
    cases special : needsSlash c with
    | true => simp [slashed_of_needsSlash special, slash, ih]
    | false => simp [slashed_of_plain special, ih]

/-- The first quote that is seen behind the opening one is the closing one. -/
theorem doubleQuoted?_slashed {text rest : List Char} (oneLine : '\n' ∉ text)
    (ends : rest.head? ≠ some '"') : doubleQuoted? (slashed text ++ '"' :: rest) = some (slashed text, rest) := by
  induction text with
  | nil =>
    cases rest with
    | nil => rfl
    | cons c rest =>
      rw [slashed, List.nil_append, doubleQuoted?]
      intro others same
      exact ends (congrArg List.head? same)
  | cons c text ih =>
    rw [List.mem_cons, not_or] at oneLine
    have further := ih oneLine.2
    cases special : needsSlash c with
    | true =>
      rw [slashed_of_needsSlash special, List.cons_append, List.cons_append, doubleQuoted?]
      simp [Ne.symm oneLine.1, further]
    | false =>
      obtain ⟨noSlash, noQuote⟩ := ne_of_plain special
      rw [slashed_of_plain special, List.cons_append, doubleQuoted?]
      · simp [further]
      all_goals simp_all

/-- A text whose quotes all stand behind backslashes starts with no quote. -/
theorem head?_slashed (text : List Char) : (slashed text).head? ≠ some '"' := by
  cases text with
  | nil => exact nofun
  | cons c text =>
    cases special : needsSlash c with
    | true => simp [slashed_of_needsSlash special]
    | false => simpa [slashed_of_plain special] using (ne_of_plain special).2

theorem replacePair_cons {first second : Char} {put rest : List Char} {c : Char}
    (differs : c ≠ first ∨ rest.head? ≠ some second) :
    replacePair first second put (c :: rest) = c :: replacePair first second put rest := by
  cases rest with
  | nil => rfl
  | cons d rest =>
    rw [replacePair, if_neg]
    rintro same
    simp at same differs
    exact differs.elim (absurd same.1) (absurd same.2)

/-- No two quotes stand side by side. -/
theorem replacePair_quotes_slashed (text : List Char) :
    replacePair '"' '"' ['"'] (slashed text) = slashed text := by
  induction text with
  | nil => rfl
  | cons c text ih =>
    cases special : needsSlash c with
    | true =>
      rw [slashed_of_needsSlash special, replacePair_cons (.inl (by decide)),
        replacePair_cons (.inr (head?_slashed text)), ih]
    | false =>
      rw [slashed_of_plain special, replacePair_cons (.inr (head?_slashed text)), ih]

/-- A text with a second backslash for each of its backslashes. -/
def doubledSlashes (text : List Char) : List Char := text.flatMap fun c => if c == '\\' then ['\\', '\\'] else [c]

theorem replacePair_slashQuote_slashed (text : List Char) :
    replacePair '\\' '"' ['"'] (slashed text) = doubledSlashes text := by
  induction text with
  | nil => rfl
  | cons c text ih =>
    cases special : needsSlash c with
    | false =>
      have plain := ne_of_plain special
      rw [slashed_of_plain special, replacePair_cons (.inl plain.1), ih]
      simp [doubledSlashes, plain.1]
    | true =>
      obtain rfl | rfl : c = '\\' ∨ c = '"' := by simpa [needsSlash] using special
      · rw [slashed_of_needsSlash special, replacePair_cons (.inr (by simp)),
          replacePair_cons (.inr (head?_slashed text)), ih]
        rfl
      · rw [slashed_of_needsSlash special]
        simp [replacePair, doubledSlashes, ih]

theorem replacePair_slashes_doubledSlashes (text : List Char) :
    replacePair '\\' '\\' ['\\'] (doubledSlashes text) = text := by
  induction text with
  | nil => rfl
  | cons c text ih =>
    by_cases slash : c = '\\'
    · rw [slash]
      simpa [doubledSlashes, replacePair] using ih
    · have one : doubledSlashes (c :: text) = c :: doubledSlashes text := by simp [doubledSlashes, slash]
      rw [one, replacePair_cons (.inl slash), ih]

theorem unquotedText_slashed (text : List Char) : unquotedText '"' (slashed text) = text := by
  rw [unquotedText, replacePair_quotes_slashed, replacePair_slashQuote_slashed, replacePair_slashes_doubledSlashes]

theorem valueOf_quoted (text : List Char) : valueOf (quoted text) = text := by
  simp [valueOf, quoted, unquotedText_slashed]

theorem written?_quoted {text rest : List Char} (oneLine : '\n' ∉ text) (ends : rest.head? ≠ some '"') :
    written? (quoted text ++ rest) = some (quoted text, rest) := by
  have found := doubleQuoted?_slashed oneLine ends
  simp [written?, quoted, found]

theorem read?_quoted {text : List Char} (rest : List Char) (oneLine : '\n' ∉ text) (ends : rest.head? ≠ some '"') :
    read? (quoted text ++ rest) = some (⟨none, String.ofList text⟩, rest.dropWhile isBlank) := by
  have starts : (quoted text ++ rest).dropWhile isBlank = quoted text ++ rest :=
    List.dropWhile_cons_of_neg (by decide)
  have noKey : key? (quoted text ++ rest) = none := rfl
  simp [read?, starts, noKey, written?_quoted oneLine ends, valueOf_quoted]

/-- The name before the language of a translation. -/
def localeKey : List Char := ['l', 'o', 'c', 'a', 'l', 'e', '=']

theorem read?_locale {text : List Char} (rest : List Char) (oneLine : '\n' ∉ text) (ends : rest.head? ≠ some '"') :
    read? (localeKey ++ (quoted text ++ rest)) =
      some (⟨some "locale", String.ofList text⟩, rest.dropWhile isBlank) := by
  have starts : (localeKey ++ (quoted text ++ rest)).dropWhile isBlank = localeKey ++ (quoted text ++ rest) :=
    List.dropWhile_cons_of_neg (by decide)
  have key : key? (localeKey ++ (quoted text ++ rest)) =
      some (['l', 'o', 'c', 'a', 'l', 'e'], quoted text ++ rest) := rfl
  have small : lowercase (String.ofList ['l', 'o', 'c', 'a', 'l', 'e']) = "locale" := by decide +kernel
  simp [read?, starts, key, written?_quoted oneLine ends, valueOf_quoted, small]

theorem readAll?_of_read? {c : Char} {text after : List Char} {argument : TagArgument}
    (inside : c ≠ ')' ∧ isSeparator c = false) (found : read? (c :: text) = some (argument, after)) :
    readAll? (c :: text) = (readAll? after).map fun (arguments, rest) => (argument :: arguments, rest) := by
  rw [readAll?, if_neg (by simpa using inside.1), if_neg (by simpa using inside.2)]
  split
  · simp_all
  · rename_i other behind same
    obtain ⟨rfl, rfl⟩ : argument = other ∧ after = behind := by simpa [found] using same
    rfl

theorem readAll?_quoted {text : List Char} (rest : List Char) (oneLine : '\n' ∉ text) :
    readAll? (quoted text ++ ')' :: rest) = some ([⟨none, String.ofList text⟩], rest) := by
  have argument := read?_quoted (')' :: rest) oneLine (by simp)
  rw [List.dropWhile_cons_of_neg (by decide)] at argument
  rw [quoted, List.cons_append] at argument ⊢
  rw [readAll?_of_read? (by decide) argument, readAll?]
  simp

theorem readAll?_translation {text locale : List Char} (rest : List Char) (oneLine : '\n' ∉ text)
    (localeOneLine : '\n' ∉ locale) :
    readAll? (quoted text ++ ',' :: ' ' :: (localeKey ++ (quoted locale ++ ')' :: rest))) =
      some ([⟨none, String.ofList text⟩, ⟨some "locale", String.ofList locale⟩], rest) := by
  have first := read?_quoted (',' :: ' ' :: (localeKey ++ (quoted locale ++ ')' :: rest))) oneLine (by simp)
  have second := read?_locale (')' :: rest) localeOneLine (by simp)
  rw [List.dropWhile_cons_of_neg (by decide)] at first second
  rw [quoted, List.cons_append] at first ⊢
  rw [localeKey, List.cons_append] at second
  rw [readAll?_of_read? (by decide) first, readAll?, if_neg (by decide), if_pos (by decide), readAll?,
    if_neg (by decide), if_pos (by decide), localeKey, List.cons_append, readAll?_of_read? (by decide) second, readAll?]
  simp

end TagArgument

/-! ### Tags -/

namespace DocTag

open TagArgument

theorem startsName_append {name : List Char} (starts : startsName name = true) (rest : List Char) :
    startsName (name ++ rest) = true := by
  cases name with
  | nil => cases starts
  | cons c name => exact starts

/-- A tag with arguments is read as far as its closing parenthesis, whatever they contain. -/
theorem allIn_of_readAll? {name inside after : List Char} {arguments : List TagArgument}
    (starts : startsName name = true) (goesOn : name.all isNameCharacter = true)
    (closes : readAll? inside = some (arguments, after)) :
    allIn ('@' :: (name ++ '(' :: inside)) = ⟨name, some arguments⟩ :: allIn after := by
  have ends : ∀ c ∈ ('(' :: inside).head?, isNameCharacter c = false := by
    intro c first
    obtain rfl : '(' = c := by simpa using first
    decide
  have behind : afterName (name ++ '(' :: inside) = '(' :: inside := by
    rw [afterName, dropWhile_append_stop goesOn ends]
    exact List.dropWhile_cons_of_neg (by decide)
  rw [allIn, if_pos (startsName_append starts _), takeWhile_append_stop goesOn ends]
  split
  · rename_i others found
    obtain rfl : inside = others := by simpa [behind] using found
    split
    · rename_i all rest read
      obtain ⟨rfl, rfl⟩ : arguments = all ∧ after = rest := by simpa [closes] using read
      rfl
    · rename_i unread
      rw [closes] at unread
      cases unread
  · rename_i noArguments
    exact absurd behind (noArguments inside)

/-- A tag without arguments ends before a blank. -/
theorem allIn_bare {name rest : List Char} (starts : startsName name = true)
    (goesOn : name.all isNameCharacter = true) (ends : ∀ c ∈ rest.head?, isNameCharacter c = false)
    (noArguments : (rest.dropWhile isBlank).head? ≠ some '(') :
    allIn ('@' :: (name ++ rest)) = ⟨name, some []⟩ :: allIn (rest.dropWhile isBlank) := by
  have behind : afterName (name ++ rest) = rest.dropWhile isBlank := by
    rw [afterName, dropWhile_append_stop goesOn ends]
  rw [allIn, if_pos (startsName_append starts _), takeWhile_append_stop goesOn ends]
  split
  · rename_i inside found
    rw [behind] at found
    exact absurd (congrArg List.head? found) noArguments
  · rw [behind]

/-- The name is what stands behind the namespaces. -/
theorem shortName_append {namespaces word : List Char} {arguments : Option (List TagArgument)}
    (plain : '\\' ∉ word) (ends : namespaces = [] ∨ namespaces.getLast? = some '\\') :
    shortName ⟨namespaces ++ word, arguments⟩ = lowercase (String.ofList word) := by
  have all : word.reverse.all (· != '\\') = true := by
    rw [List.all_reverse, List.all_eq_true]
    intro c member
    have other : c ≠ '\\' := fun same => plain (same ▸ member)
    simpa using other
  have stops : ∀ c ∈ namespaces.reverse.head?, (c != '\\') = false := by
    intro c first
    rw [List.head?_reverse] at first
    rcases ends with rfl | last
    · cases first
    · rw [last] at first
      cases first
      rfl
  rw [shortName, List.reverse_append, takeWhile_append_stop all stops, List.reverse_reverse]

theorem directive?_of_unknown {name : String} {arguments : List TagArgument} (unknown : name ∉ knownNames) :
    directive? name arguments = none := by
  simp only [knownNames, List.mem_cons, List.not_mem_nil, or_false, not_or] at unknown
  rw [directive?]
  all_goals simp [unknown]

end DocTag

/-- The characters that end a line. -/
def lineEnds : List Char :=
  ['\n', '\x0b', '\x0c', '\r', '\x1c', '\x1d', '\x1e', '\u0085', '\u2028', '\u2029']

theorem mem_lineEnds_of_isLineEnd {c : Char} (ends : isLineEnd c = true) : c ∈ lineEnds := by
  have codes : lineEnds.map Char.toNat = [10, 11, 12, 13, 28, 29, 30, 133, 8232, 8233] := by decide
  have code : c.toNat ∈ lineEnds.map Char.toNat := by
    rw [codes]
    simp [isLineEnd, inRanges] at ends ⊢
    omega
  exact (List.mem_map_of_injective fun _ _ => Char.toNat_inj.mp).mp code

theorem isLineEnd_of_isNameCharacter {c : Char} (part : DocTag.isNameCharacter c = true) :
    isLineEnd c = false := by
  have none : lineEnds.any DocTag.isNameCharacter = false := by decide +kernel
  rw [Bool.eq_false_iff]
  intro ends
  exact List.any_eq_false.mp none c (mem_lineEnds_of_isLineEnd ends) part

theorem linesFrom_of_unbroken {text : List Char} (read : List Char) (unbroken : text.all (!isLineEnd ·) = true)
    (filled : read.reverse ++ text ≠ []) : linesFrom read text = [read.reverse ++ text] := by
  induction text generalizing read with
  | nil => simpa [linesFrom] using filled
  | cons c text ih =>
    rw [List.all_cons, Bool.and_eq_true] at unbroken
    have goesOn : isLineEnd c = false := by simpa using unbroken.1
    have further := ih (c :: read) unbroken.2 (by simp)
    rw [linesFrom, if_neg (by simp [goesOn]), further]
    · simp
    · rintro rest rfl -
      cases goesOn

theorem textLines_of_unbroken {text : List Char} (unbroken : text.all (!isLineEnd ·) = true) (filled : text ≠ []) :
    textLines text = [text] := linesFrom_of_unbroken [] unbroken filled

/-! ### Comments -/

/-- Namespaces before the name of a tag, each with a backslash behind it. There need not be any. -/
structure TagNamespaces where
  chars : List Char
  written : chars = [] ∨
    DocTag.startsName chars = true ∧ chars.all DocTag.isNameCharacter = true ∧ chars.getLast? = some '\\'

/-- The name of a tag that means nothing here. -/
structure UnknownTagName where
  chars : List Char
  starts : DocTag.startsName chars = true
  goesOn : chars.all DocTag.isNameCharacter = true
  unknown : DocTag.isKnown ⟨chars, none⟩ = false

/-- The arguments of a tag as they are written: none at all, a text, or a text and the language it
is in. -/
inductive WrittenArguments where
  | bare
  | text (content : String)
  | translation (content locale : String)

namespace WrittenArguments

def texts : WrittenArguments → List String
  | bare => []
  | text content => [content]
  | translation content locale => [content, locale]

/-- The arguments with the parentheses around them. -/
def chars : WrittenArguments → List Char
  | bare => []
  | text content => '(' :: (TagArgument.quoted content.toList ++ [')'])
  | translation content locale =>
    '(' :: (TagArgument.quoted content.toList ++ ',' :: ' ' ::
      (TagArgument.localeKey ++ (TagArgument.quoted locale.toList ++ [')'])))

/-- What is read of the arguments. -/
def arguments : WrittenArguments → List TagArgument
  | bare => []
  | text content => [⟨none, content⟩]
  | translation content locale => [⟨none, content⟩, ⟨some "locale", locale⟩]

/-- Behind the opening parenthesis the arguments are read as they are meant, as far as the closing one. -/
theorem exists_readAll? {arguments : WrittenArguments} (filled : arguments ≠ .bare)
    (oneLine : ∀ text ∈ arguments.texts, '\n' ∉ text.toList) (rest : List Char) :
    ∃ inside, arguments.chars ++ rest = '(' :: inside ∧
      TagArgument.readAll? inside = some (arguments.arguments, rest) := by
  cases arguments with
  | bare => exact absurd rfl filled
  | text content =>
    have contentLine := oneLine content (by simp [texts])
    have closes := TagArgument.readAll?_quoted rest contentLine
    rw [String.ofList_toList] at closes
    exact ⟨_, by simp [chars], closes⟩
  | translation content locale =>
    have contentLine := oneLine content (by simp [texts])
    have localeLine := oneLine locale (by simp [texts])
    have closes := TagArgument.readAll?_translation rest contentLine localeLine
    rw [String.ofList_toList, String.ofList_toList] at closes
    exact ⟨_, by simp [chars], closes⟩

end WrittenArguments

/-- A tag in a comment: one that stands for a directive, or one that means nothing here and has a
quoted argument. -/
inductive WrittenTag where
  | known (namespaces : TagNamespaces) (directive : Directive)
  | unknown (name : UnknownTagName) (argument : String)

namespace WrittenTag

/-- The name of the tag that stands for a directive. -/
def knownName : Directive → List Char
  | .ignore => ['I', 'g', 'n', 'o', 'r', 'e']
  | .desc _ => ['D', 'e', 's', 'c']
  | .meaning _ => ['M', 'e', 'a', 'n', 'i', 'n', 'g']
  | .altTrans _ _ => ['A', 'l', 't', 'T', 'r', 'a', 'n', 's']

def name : WrittenTag → List Char
  | known namespaces directive => namespaces.chars ++ knownName directive
  | unknown name _ => name.chars

def arguments : WrittenTag → WrittenArguments
  | known _ .ignore => .bare
  | known _ (.desc content) => .text content
  | known _ (.meaning content) => .text content
  | known _ (.altTrans content locale) => .translation content locale
  | unknown _ argument => .text argument

/-- The directive that a tag stands for. -/
def directive? : WrittenTag → Option Directive
  | known _ directive => some directive
  | unknown _ _ => none

/-- A tag whose texts hold no line end. A translation is one into some language. -/
structure IsOneLine (tag : WrittenTag) : Prop where
  unbroken : ∀ text ∈ tag.arguments.texts, text.toList.all (!isLineEnd ·) = true
  someLocale : ∀ said, tag.directive? ≠ some (.altTrans said "")

def chars (tag : WrittenTag) : List Char := '@' :: (tag.name ++ tag.arguments.chars)

/-- The tags with a blank behind each. -/
def blankEnded (tags : List WrittenTag) : List Char := tags.flatMap fun tag => tag.chars ++ [' ']

/-- The comment of some tags. -/
def commentOf (tags : List WrittenTag) : String :=
  "/** " ++ String.ofList (blankEnded tags) ++ "*/"

variable {tag : WrittenTag} {tags : List WrittenTag}

theorem startsName_name (tag : WrittenTag) : DocTag.startsName tag.name = true := by
  cases tag with
  | known namespaces directive =>
    rcases namespaces.written with none | ⟨starts, -, -⟩
    · rw [name, none]
      cases directive <;> rfl
    · exact DocTag.startsName_append starts _
  | unknown name argument => exact name.starts

theorem isNameCharacter_name (tag : WrittenTag) : tag.name.all DocTag.isNameCharacter = true := by
  cases tag with
  | known namespaces directive =>
    have word : (knownName directive).all DocTag.isNameCharacter = true := by
      cases directive <;> rfl
    have path : namespaces.chars.all DocTag.isNameCharacter = true := by
      rcases namespaces.written with none | ⟨-, goesOn, -⟩
      · simp [none]
      · exact goesOn
    rw [name, List.all_append, path, word, Bool.and_self]
  | unknown name argument => exact name.goesOn

/-- Behind a tag comes the next one or nothing. -/
theorem head?_blankEnded : ∀ c ∈ (blankEnded tags).head?, c = '@' := by
  intro c first
  cases tags with
  | nil => cases first
  | cons tag tags => simpa [blankEnded, chars, eq_comm] using first

/-- Behind the blank nothing else is blank before the next tag. -/
theorem dropWhile_blank {rest : List Char} (next : ∀ c ∈ rest.head?, c = '@') :
    (' ' :: rest).dropWhile isBlank = rest := by
  have blank : [' '].all isBlank = true := by decide
  refine dropWhile_append_stop blank fun c first => ?_
  rw [next c first]
  decide

theorem allIn_blank (rest : List Char) : DocTag.allIn (' ' :: rest) = DocTag.allIn rest := by
  rw [DocTag.allIn]
  simp

/-- A tag is read as it is written, and the reading goes on behind it. -/
theorem allIn_tag {rest : List Char} (oneLine : tag.IsOneLine) (next : ∀ c ∈ rest.head?, c = '@') :
    DocTag.allIn (tag.chars ++ ' ' :: rest) = ⟨tag.name, some tag.arguments.arguments⟩ :: DocTag.allIn rest := by
  have unbroken (text : String) (member : text ∈ tag.arguments.texts) : '\n' ∉ text.toList := by
    intro feed
    have := List.all_eq_true.mp (oneLine.unbroken text member) '\n' feed
    cases this
  have starts := tag.startsName_name
  have goesOn := tag.isNameCharacter_name
  rw [chars, List.cons_append, List.append_assoc]
  by_cases none : tag.arguments = .bare
  · have dark := dropWhile_blank next
    -- arguments may stand behind blanks, but the next tag has no parenthesis in front
    have noArguments : ((' ' :: rest).dropWhile isBlank).head? ≠ some '(' := by
      rw [dark]
      intro opens
      cases next _ opens
    have ends : ∀ c ∈ (' ' :: rest).head?, DocTag.isNameCharacter c = false := by
      intro c first
      obtain rfl : ' ' = c := by simpa using first
      decide
    have read := DocTag.allIn_bare starts goesOn ends noArguments
    rw [dark] at read
    rw [none]
    exact read
  · obtain ⟨inside, text, closes⟩ := WrittenArguments.exists_readAll? none unbroken (' ' :: rest)
    rw [text, DocTag.allIn_of_readAll? starts goesOn closes, allIn_blank]

/-- All tags are read, each with its name and its arguments. -/
theorem allIn_blankEnded (oneLine : ∀ tag ∈ tags, tag.IsOneLine) :
    DocTag.allIn (blankEnded tags) = tags.map fun tag => ⟨tag.name, some tag.arguments.arguments⟩ := by
  induction tags with
  | nil =>
    rw [blankEnded, List.flatMap_nil, DocTag.allIn]
    rfl
  | cons tag tags ih =>
    obtain ⟨first, others⟩ := List.forall_mem_cons.mp oneLine
    have text : blankEnded (tag :: tags) = tag.chars ++ ' ' :: blankEnded tags := by simp [blankEnded]
    rw [text, allIn_tag first head?_blankEnded, ih others, List.map_cons]

theorem unbroken_arguments {arguments : WrittenArguments}
    (unbroken : ∀ text ∈ arguments.texts, text.toList.all (!isLineEnd ·) = true) :
    arguments.chars.all (!isLineEnd ·) = true := by
  have quoted (text : String) (member : text ∈ arguments.texts) :
      (TagArgument.quoted text.toList).all (!isLineEnd ·) = true := by
    rw [TagArgument.quoted, List.all_cons, List.all_append, TagArgument.all_slashed (by decide), unbroken text member]
    decide
  cases arguments with
  | bare => rfl
  | text content =>
    rw [WrittenArguments.chars, List.all_cons, List.all_append, quoted content (by simp [WrittenArguments.texts])]
    decide
  | translation content locale =>
    have key : TagArgument.localeKey.all (!isLineEnd ·) = true := by decide
    simp only [WrittenArguments.chars, List.all_cons, List.all_append, key,
      quoted content (by simp [WrittenArguments.texts]), quoted locale (by simp [WrittenArguments.texts])]
    decide

theorem unbroken_chars (oneLine : tag.IsOneLine) : tag.chars.all (!isLineEnd ·) = true := by
  have name : tag.name.all (!isLineEnd ·) = true := by
    refine List.all_eq_true.mpr fun c member => ?_
    rw [isLineEnd_of_isNameCharacter (List.all_eq_true.mp tag.isNameCharacter_name c member), Bool.not_false]
  rw [chars, List.all_cons, List.all_append, name, unbroken_arguments oneLine.unbroken]
  decide

theorem unbroken_blankEnded (oneLine : ∀ tag ∈ tags, tag.IsOneLine) :
    (blankEnded tags).all (!isLineEnd ·) = true := by
  simp only [blankEnded, List.all_flatMap, List.all_append, List.all_eq_true (l := tags)]
  intro tag member
  rw [unbroken_chars (oneLine tag member)]
  decide

/-- The comment says its tags, without the signs around it. -/
theorem commentText_commentOf (oneLine : ∀ tag ∈ tags, tag.IsOneLine) :
    commentText (commentOf tags).toList = ' ' :: blankEnded tags := by
  have unbroken : (' ' :: blankEnded tags).all (!isLineEnd ·) = true := by
    rw [List.all_cons, unbroken_blankEnded oneLine]
    decide
  have comment : (commentOf tags).toList = '/' :: '*' :: '*' :: ' ' :: (blankEnded tags ++ ['*', '/']) := by
    simp [commentOf]
  have trimmed : trimBoth isBlank (commentOf tags).toList = (commentOf tags).toList := by
    have front : isBlank '/' = false := by decide
    simp [trimBoth, comment, front]
  have bare : undecoratedLine (' ' :: blankEnded tags) = ' ' :: blankEnded tags := by
    have noStar : (blankEnded tags).head? ≠ some '*' := by
      intro star
      cases head?_blankEnded '*' star
    rw [undecoratedLine, dropWhile_blank head?_blankEnded]
    split
    · simp_all
    · simp_all
    · rfl
  rw [commentText, trimmed, comment]
  simp [withoutLeading?, textLines_of_unbroken unbroken (by simp), bare, joinWith]

/-- The name and the arguments of a tag stand for its directive. -/
theorem directive?_arguments (oneLine : tag.IsOneLine) :
    DocTag.directive? (DocTag.shortName ⟨tag.name, some tag.arguments.arguments⟩) tag.arguments.arguments =
      tag.directive? := by
  cases tag with
  | known namespaces directive =>
    have path : namespaces.chars = [] ∨ namespaces.chars.getLast? = some '\\' :=
      namespaces.written.imp_right fun written => written.2.2
    have plain : '\\' ∉ knownName directive := by cases directive <;> simp [knownName]
    rw [name, DocTag.shortName_append plain path]
    cases directive with
    | ignore =>
      have small : lowercase (String.ofList ['I', 'g', 'n', 'o', 'r', 'e']) = "ignore" := by decide +kernel
      rw [knownName, small]
      rfl
    | desc content =>
      have small : lowercase (String.ofList ['D', 'e', 's', 'c']) = "desc" := by decide +kernel
      rw [knownName, small]
      rfl
    | meaning content =>
      have small : lowercase (String.ofList ['M', 'e', 'a', 'n', 'i', 'n', 'g']) = "meaning" := by decide +kernel
      rw [knownName, small]
      rfl
    | altTrans content locale =>
      have small : lowercase (String.ofList ['A', 'l', 't', 'T', 'r', 'a', 'n', 's']) = "alttrans" := by
        decide +kernel
      have someLocale : locale ≠ "" := fun same => oneLine.someLocale content (by simp [directive?, same])
      rw [knownName, small]
      simp [DocTag.directive?, arguments, WrittenArguments.arguments, DocTag.positional, DocTag.named?, someLocale,
        directive?]
  | unknown name argument =>
    have noName : DocTag.shortName ⟨name.chars, none⟩ ∉ DocTag.knownNames := by
      simpa [DocTag.isKnown] using name.unknown
    have same : DocTag.shortName ⟨name.chars, some (arguments (unknown name argument)).arguments⟩ =
      DocTag.shortName ⟨name.chars, none⟩ := rfl
    rw [WrittenTag.name, same, DocTag.directive?_of_unknown noName]
    rfl

/-- The directives of a comment are those of its tags, in order. -/
theorem readDirectives_commentOf (tags : List WrittenTag) (oneLine : ∀ tag ∈ tags, tag.IsOneLine) (place : String) :
    (readDirectives (some (commentOf tags)) place).1 = tags.filterMap (·.directive?) := by
  simp only [readDirectives, Option.getD_some, commentText_commentOf oneLine, allIn_blank,
    allIn_blankEnded oneLine, List.filterMap_map]
  refine List.filterMap_congr fun tag member => ?_
  simp [directive?_arguments (oneLine tag member)]

/-- A comment whose texts look like tags, end like arguments and hold both signs that are escaped. -/
def trickyTags : List WrittenTag := [
  known ⟨[], .inl rfl⟩ (.desc "@Ignore(\"a\\\") says \"\"hi\"\""),
  unknown ⟨"Assert\\Length".toList, by decide, by decide, by decide +kernel⟩ "\"), @Desc(\"x\\",
  known ⟨"JMS\\Annotation\\".toList, .inr (by decide)⟩ (.altTrans "Courriel, (o) */" "fr\\"),
  known ⟨[], .inl rfl⟩ .ignore,
  known ⟨[], .inl rfl⟩ (.meaning "")]

theorem readDirectives_trickyTags :
    (∀ tag ∈ trickyTags, tag.IsOneLine) ∧
    commentOf trickyTags = "/** @Desc(\"@Ignore(\\\"a\\\\\\\") says \\\"\\\"hi\\\"\\\"\") " ++
      "@Assert\\Length(\"\\\"), @Desc(\\\"x\\\\\") " ++
      "@JMS\\Annotation\\AltTrans(\"Courriel, (o) */\", locale=\"fr\\\\\") @Ignore @Meaning(\"\") */" ∧
    (readDirectives (some (commentOf trickyTags)) "form.php").1 =
      [.desc "@Ignore(\"a\\\") says \"\"hi\"\"", .altTrans "Courriel, (o) */" "fr\\", .ignore, .meaning ""] := by
  have oneLine : ∀ tag ∈ trickyTags, tag.IsOneLine := by
    simp only [trickyTags, List.forall_mem_cons]
    refine ⟨⟨by decide, by simp [directive?]⟩, ⟨by decide, by simp [directive?]⟩, ⟨by decide, by simp [directive?]⟩,
      ⟨by decide, by simp [directive?]⟩, ⟨by decide, by simp [directive?]⟩, nofun⟩
  refine ⟨oneLine, by decide +kernel, ?_⟩
  rw [readDirectives_commentOf trickyTags oneLine]
  rfl

end WrittenTag

end FormHarvest
