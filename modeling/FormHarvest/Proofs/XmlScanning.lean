import FormHarvest.Proofs.XmlReading
import Mathlib

namespace FormHarvest

namespace Xml

/-- Whether a text is a name. -/
def isName (name : String) : Bool :=
  match name.toList with
  | c :: rest => startsName c && rest.all continuesName
  | [] => false

mutual

/-- Whether all elements and attributes in an element have names. -/
def isNamed : Xml → Bool
  | leaf name attributes _ => isName name && attributes.all (isName ·.1)
  | branch name attributes children =>
    isName name && attributes.all (isName ·.1) && areNamed children

def areNamed : List Xml → Bool
  | [] => true
  | first :: rest => isNamed first && areNamed rest

end

/-- A character of a text as it stands in a document. -/
def charMark (c : Char) : XmlMark :=
  if c = '&' ∨ c = '<' ∨ c = '>' then .reference c else .char c

def lineMarks (depth : Nat) : List XmlMark := (lineAt depth).map .char

mutual

/-- What stands in the document of an element that starts at a depth. -/
def marksAt (depth : Nat) : Xml → List XmlMark
  | leaf name attributes text =>
    if text = "" then [.empty name attributes]
    else .opening name attributes :: (text.toList.map charMark ++ [.closing name])
  | branch name attributes [] => [.empty name attributes]
  | branch name attributes (first :: rest) =>
    .opening name attributes :: (lineMarks (depth + 1) ++ marksAt (depth + 1) first
      ++ siblingMarks (depth + 1) rest ++ lineMarks depth ++ [.closing name])

/-- What stands in the document of the further elements at a depth. -/
def siblingMarks (depth : Nat) : List Xml → List XmlMark
  | [] => []
  | first :: rest => lineMarks depth ++ marksAt depth first ++ siblingMarks depth rest

end

/-- What is written at the front of any text stands for the marks. -/
def Scans (written : List Char) (marks : List XmlMark) : Prop :=
  ∀ rest, marks? (written ++ rest) = (marks? rest).map (marks ++ ·)

namespace Scans

theorem nothing : Scans [] [] := fun rest => by simp

theorem append {first second : List Char} {marks more : List XmlMark} (one : Scans first marks)
    (two : Scans second more) : Scans (first ++ second) (marks ++ more) := by
  intro rest
  rw [List.append_assoc, one, two, Option.map_map]
  simp only [Function.comp_def, List.append_assoc]

theorem single {written : List Char} {mark : XmlMark} (nonempty : written ≠ [])
    (reads : ∀ rest, mark? (written ++ rest) = some (mark, rest)) : Scans written [mark] := by
  intro rest
  have more : written ++ rest ≠ [] := by simp [nonempty]
  have shorter : rest.length < (written ++ rest).length := by
    have := List.length_pos_iff.mpr nonempty
    rw [List.length_append]
    omega
  rw [marks?, if_neg more]
  simp only [reads, if_pos shorter]
  rfl

end Scans

section Names

theorem exists_of_isName {name : String} (named : isName name = true) :
    ∃ c rest, name.toList = c :: rest ∧ startsName c = true ∧ ∀ other ∈ rest, continuesName other = true := by
  unfold isName at named
  split at named
  · rename_i c rest chars
    rw [Bool.and_eq_true, List.all_eq_true] at named
    exact ⟨c, rest, chars, named⟩
  · cases named

theorem name?_append {name : String} (named : isName name = true) {rest : List Char}
    (stops : ∀ c ∈ rest.head?, continuesName c = false) :
    name? (name.toList ++ rest) = some (name.toList, rest) := by
  obtain ⟨c, others, chars, starts, continues⟩ := exists_of_isName named
  have behind : rest.takeWhile continuesName = [] ∧ rest.dropWhile continuesName = rest := by
    cases rest with
    | nil => exact ⟨rfl, rfl⟩
    | cons next rest => simp [stops next rfl]
  rw [chars, List.cons_append, name?, if_pos starts, List.takeWhile_append_of_pos continues,
    List.dropWhile_append_of_pos continues, behind.1, behind.2, List.append_nil]

/-- A name does not start with a sign of markup or with white space. -/
theorem ne_of_startsName {c other : Char} (starts : startsName c = true)
    (sign : startsName other = false) : c ≠ other := by
  rintro rfl
  rw [starts] at sign
  cases sign

theorem isSpace_of_startsName {c : Char} (starts : startsName c = true) : isSpace c = false := by
  have blank := ne_of_startsName starts (by decide : startsName ' ' = false)
  have tab := ne_of_startsName starts (by decide : startsName '\t' = false)
  have feed := ne_of_startsName starts (by decide : startsName '\n' = false)
  have back := ne_of_startsName starts (by decide : startsName '\r' = false)
  simp [isSpace, blank, tab, feed, back]

end Names

section References

theorem reference?_append {name : List Char} (plain : ';' ∉ name) (rest : List Char) :
    reference? (name ++ ';' :: rest) = (referred? name).map fun c => (c, rest) := by
  have before : ∀ c ∈ name, (c != ';') = true := by
    intro c member
    simpa using fun same : c = ';' => plain (same ▸ member)
  have drops : (name ++ ';' :: rest).dropWhile (· != ';') = ';' :: rest := by
    rw [List.dropWhile_append_of_pos before]
    simp
  have takes : (name ++ ';' :: rest).takeWhile (· != ';') = name := by
    rw [List.takeWhile_append_of_pos before]
    simp
  unfold reference?
  rw [drops, takes]

/-- A character is written as itself, or by a reference that stands for it. -/
theorem escapedTextChar_cases (c : Char) :
    (escapedTextChar c = [c] ∧ c ≠ '&' ∧ c ≠ '<' ∧ c ≠ '>' ∧ charMark c = .char c) ∨
      ∃ name, escapedTextChar c = '&' :: (name ++ [';']) ∧ ';' ∉ name ∧ '"' ∉ name ∧
        referred? name = some c ∧ charMark c = .reference c := by
  by_cases ampersand : c = '&'
  · subst ampersand
    exact .inr ⟨['a', 'm', 'p'], by decide⟩
  by_cases less : c = '<'
  · subst less
    exact .inr ⟨['l', 't'], by decide⟩
  by_cases greater : c = '>'
  · subst greater
    exact .inr ⟨['g', 't'], by decide⟩
  exact .inl ⟨by simp [escapedTextChar, ampersand, less, greater], ampersand, less, greater,
    by simp [charMark, ampersand, less, greater]⟩

/-- A character of an attribute is written as itself, or by a reference that stands for it. -/
theorem escapedAttributeChar_cases (c : Char) :
    (escapedAttributeChar c = [c] ∧ c ≠ '"' ∧ c ≠ '&' ∧ c ≠ '<' ∧ (isSpace c = true → c = ' ')) ∨
      ∃ name, escapedAttributeChar c = '&' :: (name ++ [';']) ∧ ';' ∉ name ∧ '"' ∉ name ∧
        referred? name = some c := by
  by_cases quote : c = '"'
  · subst quote
    exact .inr ⟨['q', 'u', 'o', 't'], by decide⟩
  by_cases back : c = '\r'
  · subst back
    exact .inr ⟨['#', '1', '3'], by decide⟩
  by_cases feed : c = '\n'
  · subst feed
    exact .inr ⟨['#', '1', '0'], by decide⟩
  by_cases tab : c = '\t'
  · subst tab
    exact .inr ⟨['#', '0', '9'], by decide⟩
  have same : escapedAttributeChar c = escapedTextChar c := by
    simp [escapedAttributeChar, quote, back, feed, tab]
  rw [same]
  rcases escapedTextChar_cases c with ⟨itself, ampersand, less, -, -⟩ | ⟨name, written, noEnd, noQuote, refers, -⟩
  · exact .inl ⟨itself, quote, ampersand, less, fun space => by simpa [isSpace, back, feed, tab] using space⟩
  · exact .inr ⟨name, written, noEnd, noQuote, refers⟩

end References

section Attributes

theorem value?_cons {c : Char} {rest : List Char} (noTag : c ≠ '<') (noReference : c ≠ '&') :
    value? (c :: rest) = (value? rest).map ((if isSpace c then ' ' else c) :: ·) := by
  rw [value?]
  · exact fun same => noTag same
  · exact fun same => noReference same

theorem value?_reference {name : List Char} {c : Char} (plain : ';' ∉ name)
    (refers : referred? name = some c) (rest : List Char) :
    value? ('&' :: (name ++ ';' :: rest)) = (value? rest).map (c :: ·) := by
  have shorter : rest.length ≤ (name ++ ';' :: rest).length := by
    rw [List.length_append, List.length_cons]
    omega
  rw [value?, reference?_append plain, refers]
  simp only [Option.map_some, if_pos shorter]

/-- The value of an attribute is read as it was before it was escaped. -/
theorem value?_escaped (text : List Char) :
    value? (text.flatMap escapedAttributeChar) = some text := by
  induction text with
  | nil => rw [List.flatMap_nil, value?]
  | cons c rest ih =>
    rw [List.flatMap_cons]
    rcases escapedAttributeChar_cases c with ⟨itself, -, noReference, noTag, space⟩ | ⟨name, written, noEnd, -, refers⟩
    · rw [itself, List.singleton_append, value?_cons noTag noReference, ih]
      by_cases isBlank : isSpace c = true
      · simp [space isBlank]
      · simp [isBlank]
    · rw [written, List.cons_append, List.append_assoc, List.singleton_append,
        value?_reference noEnd refers, ih]
      rfl

theorem quote_notMem_escaped (text : List Char) : '"' ∉ text.flatMap escapedAttributeChar := by
  intro member
  obtain ⟨c, -, member⟩ := List.mem_flatMap.mp member
  rcases escapedAttributeChar_cases c with ⟨itself, noQuote, -⟩ | ⟨name, written, -, noQuote, -⟩
  · rw [itself, List.mem_singleton] at member
    exact noQuote member.symm
  · rw [written] at member
    simp [noQuote] at member

theorem attribute?_written {name : String} (named : isName name = true) (value : String)
    (rest : List Char) :
    attribute? (name.toList ++ '=' :: '"' :: (value.toList.flatMap escapedAttributeChar ++ '"' :: rest))
      = some ((name, value), rest) := by
  have before : ∀ c ∈ value.toList.flatMap escapedAttributeChar, (c != '"') = true := by
    intro c member
    simpa using fun same : c = '"' => quote_notMem_escaped value.toList (same ▸ member)
  have drops : (value.toList.flatMap escapedAttributeChar ++ '"' :: rest).dropWhile (· != '"')
      = '"' :: rest := by
    rw [List.dropWhile_append_of_pos before]
    simp
  have takes : (value.toList.flatMap escapedAttributeChar ++ '"' :: rest).takeWhile (· != '"')
      = value.toList.flatMap escapedAttributeChar := by
    rw [List.takeWhile_append_of_pos before]
    simp
  have stops : ∀ c ∈ ('=' :: '"' :: (value.toList.flatMap escapedAttributeChar ++ '"' :: rest)).head?,
      continuesName c = false := by
    rintro c ⟨⟩
    decide
  have equals (rest : List Char) : ('=' :: rest).dropWhile isSpace = '=' :: rest := rfl
  have quotes (rest : List Char) : ('"' :: rest).dropWhile isSpace = '"' :: rest := rfl
  simp [attribute?, name?_append named stops, equals, quotes, drops, takes, value?_escaped]

/-- Attributes are read up to the end of their tag. -/
theorem attributes?_written {attributes : List (String × String)}
    (named : attributes.all (isName ·.1) = true) {tail : List Char} {c : Char} {rest : List Char}
    (ends : tail.dropWhile isSpace = c :: rest) (isEnd : c = '>' ∨ c = '/' ∨ c = '?') :
    attributes? (attributes.flatMap writtenAttribute ++ tail) = some (attributes, c :: rest) := by
  induction attributes with
  | nil =>
    rw [List.flatMap_nil, List.nil_append, attributes?, ends]
    simp only [Bool.or_eq_true, beq_iff_eq, or_assoc, isEnd, if_true]
  | cons first others ih =>
    obtain ⟨name, value⟩ := first
    rw [List.all_cons, Bool.and_eq_true] at named
    obtain ⟨start, more, chars, starts, -⟩ := exists_of_isName named.1
    have written : ((name, value) :: others).flatMap writtenAttribute ++ tail
        = ' ' :: (name.toList ++ '=' :: '"' :: (value.toList.flatMap escapedAttributeChar
          ++ '"' :: (others.flatMap writtenAttribute ++ tail))) := by
      simp [List.flatMap_cons, writtenAttribute]
    have read := attribute?_written named.1 value (others.flatMap writtenAttribute ++ tail)
    have noEnd : (start == '>' || start == '/' || start == '?') = false := by
      simp [ne_of_startsName starts (by decide : startsName '>' = false),
        ne_of_startsName starts (by decide : startsName '/' = false),
        ne_of_startsName starts (by decide : startsName '?' = false)]
    rw [written]
    rw [chars, List.cons_append] at read ⊢
    rw [attributes?, List.dropWhile_cons_of_pos (by decide),
      List.dropWhile_cons_of_neg (by simp [isSpace_of_startsName starts])]
    have shorter : (others.flatMap writtenAttribute ++ tail).length
        < (' ' :: start :: (more ++ '=' :: '"' :: (value.toList.flatMap escapedAttributeChar
          ++ '"' :: (others.flatMap writtenAttribute ++ tail)))).length := by
      simp only [List.length_cons, List.length_append]
      omega
    simp only [noEnd, read, shorter, ih named.2, Bool.false_eq_true, if_false, if_true, Option.map_some,
      List.head?_cons, Option.any_some, (by decide : isSpace ' ' = true), Bool.not_true]

end Attributes

section Tags

variable {name : String} {attributes : List (String × String)}

/-- The name of a tag ends where its attributes start, or where the tag ends. -/
theorem name?_tag (named : isName name = true) {tail : List Char} (stops : ∀ c ∈ tail.head?, continuesName c = false) :
    name? (name.toList ++ (attributes.flatMap writtenAttribute ++ tail))
      = some (name.toList, attributes.flatMap writtenAttribute ++ tail) := by
  refine name?_append named ?_
  cases attributes with
  | nil => exact stops
  | cons first others =>
    rintro c ⟨⟩
    decide

/-- Behind its bracket a tag starts with a name, and is no comment, section, instruction or end tag. -/
theorem mark?_name (named : isName name = true) (rest : List Char) :
    mark? ('<' :: (name.toList ++ rest)) = opening? (name.toList ++ rest) := by
  obtain ⟨c, others, chars, starts, -⟩ := exists_of_isName named
  have slash := ne_of_startsName starts (by decide : startsName '/' = false)
  have exclamation := ne_of_startsName starts (by decide : startsName '!' = false)
  have question := ne_of_startsName starts (by decide : startsName '?' = false)
  rw [chars, List.cons_append, mark?] <;> simp_all

theorem opening_scans (named : isName name = true) (namedAll : attributes.all (isName ·.1) = true) :
    Scans (opening name attributes ++ ['>']) [.opening name attributes] := by
  refine .single (by simp [opening]) fun rest => ?_
  have stops : ∀ c ∈ ('>' :: rest).head?, continuesName c = false := by
    rintro c ⟨⟩
    decide
  have ends : ('>' :: rest).dropWhile isSpace = '>' :: rest := rfl
  rw [opening, List.append_assoc, List.append_assoc, List.cons_append, List.singleton_append,
    mark?_name named]
  simp [opening?, name?_tag named stops, attributes?_written namedAll ends (.inl rfl)]

theorem empty_scans (named : isName name = true) (namedAll : attributes.all (isName ·.1) = true) :
    Scans (opening name attributes ++ [' ', '/', '>']) [.empty name attributes] := by
  refine .single (by simp [opening]) fun rest => ?_
  have stops : ∀ c ∈ (' ' :: '/' :: '>' :: rest).head?, continuesName c = false := by
    rintro c ⟨⟩
    decide
  have ends : (' ' :: '/' :: '>' :: rest).dropWhile isSpace = '/' :: '>' :: rest := rfl
  rw [opening, List.append_assoc, List.append_assoc, List.cons_append, mark?_name named]
  simp [opening?, name?_tag named stops, attributes?_written namedAll ends (.inr (.inl rfl))]

theorem closing_scans (named : isName name = true) : Scans (closing name) [.closing name] := by
  refine .single (by simp [closing]) fun rest => ?_
  have stops : ∀ c ∈ ('>' :: rest).head?, continuesName c = false := by
    rintro c ⟨⟩
    decide
  have ends : ('>' :: rest).dropWhile isSpace = '>' :: rest := rfl
  simp [closing, mark?, closing?, name?_append named stops, ends]

end Tags

section Texts

theorem mark?_char {c : Char} {rest : List Char} (noTag : c ≠ '<') (noReference : c ≠ '&')
    (noEnd : ∀ behind, c :: rest ≠ ']' :: ']' :: '>' :: behind) :
    mark? (c :: rest) = some (.char c, rest) := by
  unfold mark?
  split <;> simp_all

theorem char_scans {c : Char} (noTag : c ≠ '<') (noReference : c ≠ '&') (noEnd : c ≠ ']') :
    Scans [c] [.char c] :=
  .single (by simp) fun _ => mark?_char noTag noReference fun _ same => noEnd (List.cons.inj same).1

theorem lineAt_scans (depth : Nat) : Scans (lineAt depth) (lineMarks depth) := by
  have blanks (n : Nat) : Scans (List.replicate n ' ') ((List.replicate n ' ').map .char) := by
    induction n with
    | zero => exact .nothing
    | succ n ih => exact (char_scans (by decide) (by decide) (by decide)).append ih
  exact (char_scans (by decide) (by decide) (by decide)).append (blanks _)

/-- In an escaped text no bracket stands before the sign that closes a section. -/
theorem escaped_ne_sectionEnd (text rest behind : List Char) :
    ']' :: (text.flatMap escapedTextChar ++ '<' :: rest) ≠ ']' :: ']' :: '>' :: behind := by
  have noGreater (text : List Char) :
      text.flatMap escapedTextChar ++ '<' :: rest ≠ '>' :: behind := by
    cases text with
    | nil => simp
    | cons c others =>
      rcases escapedTextChar_cases c with ⟨itself, -, -, greater, -⟩ | ⟨name, written, -⟩
      · simp [itself, greater]
      · simp [written]
  intro same
  cases text with
  | nil => simp at same
  | cons c others =>
    rw [List.flatMap_cons] at same
    rcases escapedTextChar_cases c with ⟨itself, -⟩ | ⟨name, written, -⟩
    · rw [itself, List.singleton_append, List.cons_append, List.cons.injEq, List.cons.injEq] at same
      exact noGreater others same.2.2
    · simp [written] at same

theorem reference_scans {name : List Char} {c : Char} (plain : ';' ∉ name)
    (refers : referred? name = some c) : Scans ('&' :: (name ++ [';'])) [.reference c] := by
  refine .single (by simp) fun rest => ?_
  rw [List.cons_append, List.append_assoc, List.singleton_append]
  simp only [mark?, reference?_append plain, refers, Option.map_some]

/-- A text up to the tag behind it stands for its characters. -/
theorem marks?_text (text rest : List Char) :
    marks? (text.flatMap escapedTextChar ++ '<' :: rest)
      = (marks? ('<' :: rest)).map (text.map charMark ++ ·) := by
  induction text with
  | nil => simp
  | cons c others ih =>
    have step : marks? ((c :: others).flatMap escapedTextChar ++ '<' :: rest)
        = (marks? (others.flatMap escapedTextChar ++ '<' :: rest)).map (charMark c :: ·) := by
      rw [List.flatMap_cons, List.append_assoc]
      rcases escapedTextChar_cases c with ⟨itself, noReference, noTag, -, mark⟩ | ⟨name, written, plain, -, refers, mark⟩
      · have noEnd (behind : List Char) :
            c :: (others.flatMap escapedTextChar ++ '<' :: rest) ≠ ']' :: ']' :: '>' :: behind := by
          intro same
          have bracket := (List.cons.inj same).1
          exact escaped_ne_sectionEnd others rest behind (bracket ▸ same)
        rw [itself, mark, List.singleton_append, marks?, if_neg (by simp)]
        simp only [mark?_char noTag noReference noEnd, List.length_cons, Nat.lt_succ_self, if_true]
      · rw [written, mark]
        exact reference_scans plain refers _
    rw [step, ih, Option.map_map]
    rfl

theorem text_scans {name : String} (named : isName name = true) (text : List Char) :
    Scans (text.flatMap escapedTextChar ++ closing name) (text.map charMark ++ [.closing name]) := by
  intro rest
  have closes := closing_scans named rest
  rw [closing, List.cons_append, List.cons_append] at closes
  rw [closing, List.append_assoc, List.cons_append, List.cons_append, marks?_text, closes, Option.map_map]
  simp only [Function.comp_def, List.append_assoc]

end Texts

mutual

/-- What is written of an element stands for what is in it, whatever comes behind it. -/
theorem writtenAt_scans (depth : Nat) (element : Xml) (named : element.isNamed = true) :
    Scans (writtenAt depth element) (marksAt depth element) := by
  cases element with
  | leaf name attributes text =>
    rw [isNamed, Bool.and_eq_true] at named
    rw [writtenAt, marksAt]
    split
    · exact empty_scans named.1 named.2
    · have parts := (opening_scans named.1 named.2).append (text_scans named.1 text.toList)
      simpa using parts
  | branch name attributes children =>
    rw [isNamed, Bool.and_eq_true, Bool.and_eq_true] at named
    obtain ⟨⟨isName, areNames⟩, inside⟩ := named
    cases children with
    | nil =>
      rw [writtenAt, marksAt]
      exact empty_scans isName areNames
    | cons first rest =>
      rw [areNamed, Bool.and_eq_true] at inside
      have parts := (opening_scans isName areNames).append <|
        ((((lineAt_scans (depth + 1)).append (writtenAt_scans (depth + 1) first inside.1)).append
          (writtenSiblings_scan (depth + 1) rest inside.2)).append (lineAt_scans depth)).append
          (closing_scans isName)
      rw [writtenAt, marksAt]
      simpa using parts

/-- What is written of further elements stands for what is in them. -/
theorem writtenSiblings_scan (depth : Nat) (elements : List Xml) (named : areNamed elements = true) :
    Scans (writtenSiblings depth elements) (siblingMarks depth elements) := by
  cases elements with
  | nil =>
    rw [writtenSiblings, siblingMarks]
    exact .nothing
  | cons first rest =>
    rw [areNamed, Bool.and_eq_true] at named
    rw [writtenSiblings, siblingMarks]
    exact ((lineAt_scans depth).append (writtenAt_scans depth first named.1)).append
      (writtenSiblings_scan depth rest named.2)

end

end Xml

end FormHarvest
