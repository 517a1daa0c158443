import FormHarvest.Php.Lexer
import FormHarvest.Php.Operators
import Mathlib

namespace FormHarvest

/-- A letter, a digit or the underscore, in ASCII. -/
def isAsciiWord (c : Char) : Bool := c.isAlphanum || c == '_'

/-- A name in ASCII without backslashes. -/
structure Identifier where
  first : Char
  others : List Char
  starts : (first.isAlpha || first == '_') = true
  goesOn : others.all isAsciiWord = true

namespace Identifier

def chars (name : Identifier) : List Char := name.first :: name.others

def text (name : Identifier) : String := String.ofList name.chars

end Identifier

/-- Identifiers with backslashes between them, and one before them if the name is rooted. -/
structure NamePath where
  rooted : Bool
  first : Identifier
  others : List Identifier

namespace NamePath

def chars (path : NamePath) : List Char :=
  (if path.rooted then ['\\'] else []) ++ path.first.chars ++
    path.others.flatMap fun segment => '\\' :: segment.chars

def text (path : NamePath) : String := String.ofList path.chars

end NamePath

/-- The words that the parser never takes for a name where an operand can start. -/
def keywords : List String :=
  modifiers ++ classWords ++ openingWords ++ operandWords ++ wordBindings.map (·.1) ++
    ["namespace", "use", "static", "function", "fn", "const", "case", "default", "match", "as"]

/-- The words that the parser reads in ways of their own where a name can stand. -/
def reservedWords : List String := keywords ++ castNames ++ ["array", "list", "new"]

/-- The name of a function, a class or a constant: no reserved word. -/
structure Name where
  path : NamePath
  free : reservedWords.contains (lowercase path.text) = false

/-- A whole number as it is written, in base ten or, after its mark, in base sixteen. Underscores may
stand between the digits. A number in base ten is no longer than what can be read and starts with a
zero only if it is zero. -/
inductive Numeral where
  | decimal (first : Char) (others : List Char)
    (isNumber : first.isDigit = true ∧ others.all (fun c => c.isDigit || c == '_') = true)
    (canonical : first = '0' → others = [])
    (short : (others.filter (· != '_')).length < maxDecimalDigits)
  | hexadecimal (capital : Bool) (first : Char) (others : List Char)
    (isNumber : isHex first = true ∧ others.all (fun c => isHex c || c == '_') = true)

namespace Numeral

def chars : Numeral → List Char
  | decimal first others _ _ _ => first :: others
  | hexadecimal capital first others _ => '0' :: (if capital then 'X' else 'x') :: first :: others

def text (numeral : Numeral) : String := String.ofList numeral.chars

/-- The number that is written. -/
def value : Numeral → Nat
  | decimal first others _ _ _ => digitsValue 10 ((first :: others).filter (· != '_'))
  | hexadecimal _ first others _ => digitsValue 16 ((first :: others).filter (· != '_'))

end Numeral

/-- The characters before which a word or a number ends. -/
def wordEnds : List Char :=
  [' ', '(', ')', '[', ']', '{', '}', ',', ';', '-', ':', '=', '"', '/', '$']

theorem takeWhile_append_stop {p : Char → Bool} {front rest : List Char} (all : front.all p = true)
    (stops : ∀ c ∈ rest.head?, p c = false) : (front ++ rest).takeWhile p = front := by
  rw [List.takeWhile_append_of_pos fun c member => List.all_eq_true.mp all c member]
  cases rest with
  | nil => simp
  | cons c rest => simp [stops c rfl]

theorem dropWhile_append_stop {p : Char → Bool} {front rest : List Char} (all : front.all p = true)
    (stops : ∀ c ∈ rest.head?, p c = false) : (front ++ rest).dropWhile p = rest := by
  rw [List.dropWhile_append_of_pos fun c member => List.all_eq_true.mp all c member]
  cases rest with
  | nil => rfl
  | cons c rest => exact List.dropWhile_cons_of_neg (by simp [stops c rfl])

/-- What a word or a number cannot go on with. -/
theorem not_part_of_mem_wordEnds : ∀ c ∈ wordEnds, isNamePart c = false ∧ isDecimal c = false ∧
    isHex c = false ∧ c ∉ ['\\', '_', '.', 'e', 'E', 'x', 'X', 'b', 'B', 'o', 'O'] := by
  have all : wordEnds.all (fun c => decide (isNamePart c = false ∧ isDecimal c = false ∧ isHex c = false ∧
      c ∉ ['\\', '_', '.', 'e', 'E', 'x', 'X', 'b', 'B', 'o', 'O'])) = true := by decide
  exact fun c member => of_decide_eq_true (List.all_eq_true.mp all c member)

theorem scanPhp_plain {c : Char} (rest : List Char)
    (plain : c ∉ ['?', '/', '\'', '"', '\x60', '#', '<']) (dark : isBlank c = false) :
    scanPhp (c :: rest) = .ok (scanPlain (c :: rest)) := by
  simp only [List.mem_cons, List.not_mem_nil, or_false, not_or] at plain
  obtain ⟨question, slash, quote, double, backtick, hash, angle⟩ := plain
  have noBlock : blockStart? (c :: rest) = none := by
    simp [blockStart?, List.isPrefixOf, Ne.symm angle]
  rw [scanPhp]
  · simp [dark, hash, List.isPrefixOf, Ne.symm slash, noBlock]
  all_goals simp [*]

/-! ### Names and variables -/

theorem toNat_bounds_of_isAsciiWord {c : Char} (word : isAsciiWord c = true) :
    48 ≤ c.toNat ∧ c.toNat ≤ 122 := by
  simp only [isAsciiWord, Char.isAlphanum, Char.isAlpha, Char.isUpper, Char.isLower, Char.isDigit,
    Bool.or_eq_true, Bool.and_eq_true, decide_eq_true_eq, ge_iff_le, UInt32.le_iff_toNat_le,
    beq_iff_eq] at word
  rcases word with word | rfl
  · have : c.toNat = c.val.toNat := rfl
    have : 'A'.val.toNat = 65 ∧ 'Z'.val.toNat = 90 ∧ 'a'.val.toNat = 97 ∧ 'z'.val.toNat = 122 ∧
      '0'.val.toNat = 48 ∧ '9'.val.toNat = 57 := by decide
    omega
  · decide

theorem isNamePart_of_isAsciiWord {c : Char} (word : isAsciiWord c = true) : isNamePart c = true := by
  have := toNat_bounds_of_isAsciiWord word
  have ascii : c.toNat < 128 := by omega
  rw [isNamePart, isWord, if_pos ascii, show (c.isAlphanum || c == '_') = true from word, Bool.true_or]

theorem isBlank_of_isAsciiWord {c : Char} (word : isAsciiWord c = true) : isBlank c = false := by
  have := toNat_bounds_of_isAsciiWord word
  simp [isBlank, inRanges, blankRanges]
  omega

namespace Identifier

variable (name : Identifier)

theorem isAsciiWord_first : isAsciiWord name.first = true := by
  have starts := name.starts
  simp only [Bool.or_eq_true] at starts
  simp only [isAsciiWord, Char.isAlphanum, Bool.or_eq_true]
  exact starts.imp_left .inl

theorem isNameStart_first : isNameStart name.first = true := by
  rw [isNameStart, name.starts, Bool.true_or]

theorem isDecimal_first : isDecimal name.first = false := by
  have := toNat_bounds_of_isAsciiWord name.isAsciiWord_first
  have ascii : name.first.toNat < 128 := by omega
  have noDigit : name.first.isDigit = false := by
    have starts := name.starts
    simp only [Char.isAlpha, Char.isUpper, Char.isLower, Bool.or_eq_true, Bool.and_eq_true,
      decide_eq_true_eq, ge_iff_le, UInt32.le_iff_toNat_le, beq_iff_eq] at starts
    rcases starts with starts | same
    · have : 'A'.val.toNat = 65 ∧ 'a'.val.toNat = 97 ∧ '9'.val.toNat = 57 := by decide
      simp only [Char.isDigit, Bool.and_eq_false_iff, decide_eq_false_iff_not, ge_iff_le,
        UInt32.le_iff_toNat_le]
      omega
    · rw [same]
      decide
  simp [isDecimal, decimalValue?, ascii, noDigit]

theorem segmentLength?_append {rest : List Char} (stops : ∀ c ∈ rest.head?, isNamePart c = false) :
    segmentLength? (name.chars ++ rest) = some name.chars.length := by
  have parts : name.others.all isNamePart = true := by
    refine List.all_eq_true.mpr fun c member => isNamePart_of_isAsciiWord ?_
    exact List.all_eq_true.mp name.goesOn c member
  simp [chars, segmentLength?, name.isNameStart_first, takeWhile_append_stop parts stops]

end Identifier

theorem isNamePart_head_segments (segments : List Identifier) {rest : List Char}
    (stops : ∀ c ∈ rest.head?, c ∈ wordEnds) :
    ∀ c ∈ ((segments.flatMap fun segment => '\\' :: segment.chars) ++ rest).head?,
      isNamePart c = false := by
  intro c first
  cases segments with
  | nil => exact (not_part_of_mem_wordEnds c (stops c first)).1
  | cons next segments =>
    obtain rfl : '\\' = c := by simpa using first
    decide

theorem segmentsLength_append (segments : List Identifier) {rest : List Char}
    (stops : ∀ c ∈ rest.head?, c ∈ wordEnds) :
    segmentsLength ((segments.flatMap fun segment => '\\' :: segment.chars) ++ rest) =
      (segments.flatMap fun segment => '\\' :: segment.chars).length := by
  induction segments with
  | nil =>
    cases rest with
    | nil => simp [segmentsLength]
    | cons c rest =>
      have other : c ≠ '\\' := by
        have := not_part_of_mem_wordEnds c (stops c rfl)
        rintro rfl
        simp at this
      simp [segmentsLength, other]
  | cons segment segments ih =>
    have here := segment.segmentLength?_append (isNamePart_head_segments segments stops)
    simp only [List.flatMap_cons, List.cons_append, List.append_assoc, segmentsLength, here,
      List.drop_left, ih]
    simp
    omega

theorem nameLength?_rooted (text : List Char) :
    nameLength? ('\\' :: text) =
      (segmentLength? text).map fun n => 1 + n + segmentsLength (text.drop n) := by
  simp [nameLength?, Nat.add_comm 1]

theorem nameLength?_unrooted {text : List Char} (unrooted : text.head? ≠ some '\\') :
    nameLength? text = (segmentLength? text).map fun n => n + segmentsLength (text.drop n) := by
  simp [nameLength?, unrooted]

theorem NamePath.nameLength?_append (path : NamePath) {rest : List Char}
    (stops : ∀ c ∈ rest.head?, c ∈ wordEnds) :
    nameLength? (path.chars ++ rest) = some path.chars.length := by
  obtain ⟨rooted, first, others⟩ := path
  have atFirst := first.segmentLength?_append (isNamePart_head_segments others stops)
  have behind := segmentsLength_append others stops
  cases rooted with
  | true =>
    simp only [chars, if_true, List.cons_append, List.nil_append, List.append_assoc, nameLength?_rooted,
      atFirst, Option.map_some, List.drop_left, behind, List.length_cons,
      List.length_append]
    congr 1
    omega
  | false =>
    have unrooted : first.first ≠ '\\' := by
      intro same
      have := first.isAsciiWord_first
      rw [same] at this
      cases this
    simp only [chars, Bool.false_eq_true, if_false, List.nil_append, List.append_assoc]
    rw [nameLength?_unrooted (by simpa [Identifier.chars] using unrooted), atFirst]
    simp only [Option.map_some, List.drop_left, behind, List.length_append]

theorem numberLength?_eq_none {c : Char} (rest : List Char) (noDigit : isDecimal c = false)
    (noPoint : c ≠ '.') : numberLength? (c :: rest) = none := by
  have noZero : c ≠ '0' := by
    rintro rfl
    cases noDigit
  have unmarked : markedNumberLength (c :: rest) = 0 := by
    unfold markedNumberLength
    split
    · rename_i same
      exact absurd (List.cons.inj same).1 noZero
    · rfl
  simp [numberLength?, unmarked, digitRunLength, noDigit, noPoint]

theorem variableLength?_eq_none {c : Char} (rest : List Char) (noDollar : c ≠ '$') :
    variableLength? (c :: rest) = none := by
  unfold variableLength?
  split
  · rename_i same
    exact absurd (List.cons.inj same).1 noDollar
  · rfl

/-- A name starts with a backslash or like an identifier. -/
theorem NamePath.exists_chars_eq_cons (path : NamePath) :
    ∃ c rest, path.chars = c :: rest ∧ (c = '\\' ∨ isAsciiWord c = true ∧ isDecimal c = false) := by
  obtain ⟨rooted, first, others⟩ := path
  cases rooted with
  | true => exact ⟨'\\', _, rfl, .inl rfl⟩
  | false => exact ⟨first.first, _, rfl, .inr ⟨first.isAsciiWord_first, first.isDecimal_first⟩⟩

theorem not_mem_of_isAsciiWord {c : Char} (word : isAsciiWord c = true) :
    c ∉ ['?', '/', '\'', '"', '\x60', '#', '<', '$', '.', ' '] := by
  intro member
  have odd : ['?', '/', '\'', '"', '\x60', '#', '<', '$', '.', ' '].any isAsciiWord = false := by decide
  rw [Bool.eq_false_iff.mpr (List.any_eq_false.mp odd c member)] at word
  cases word

theorem NamePath.scanPhp_append (path : NamePath) {rest : List Char}
    (stops : ∀ c ∈ rest.head?, c ∈ wordEnds) :
    scanPhp (path.chars ++ rest) =
      .ok ⟨path.chars.length, some { kind := .name, text := path.chars }, .php⟩ := by
  have length := path.nameLength?_append stops
  obtain ⟨c, others, start, opens⟩ := path.exists_chars_eq_cons
  have odd : c ∉ ['?', '/', '\'', '"', '\x60', '#', '<', '$', '.'] ∧ isBlank c = false ∧
      isDecimal c = false := by
    rcases opens with rfl | ⟨word, noDigit⟩
    · decide
    · have := not_mem_of_isAsciiWord word
      exact ⟨by simp_all, isBlank_of_isAsciiWord word, noDigit⟩
  obtain ⟨odd, dark, noDigit⟩ := odd
  have whole : (path.chars ++ rest).take path.chars.length = path.chars := List.take_left
  rw [start, List.cons_append] at length whole ⊢
  rw [scanPhp_plain _ (by simp_all) dark]
  simp only [scanPlain, variableLength?_eq_none _ (show c ≠ '$' by simp_all),
    numberLength?_eq_none _ noDigit (show c ≠ '.' by simp_all), length, Scan.verbatim, whole]

theorem Identifier.scanPhp_append (name : Identifier) {rest : List Char}
    (stops : ∀ c ∈ rest.head?, c ∈ wordEnds) :
    scanPhp ('$' :: name.chars ++ rest) =
      .ok ⟨name.chars.length + 1, some { kind := .variable, text := name.chars }, .php⟩ := by
  have length := name.segmentLength?_append fun c first => (not_part_of_mem_wordEnds c (stops c first)).1
  rw [List.cons_append, scanPhp_plain _ (by decide) (by decide)]
  simp [scanPlain, variableLength?, length]

/-! ### Numbers -/

theorem toNat_bounds_of_isDigit {c : Char} (digit : c.isDigit = true) : 48 ≤ c.toNat ∧ c.toNat ≤ 57 := by
  simp only [Char.isDigit, Bool.and_eq_true, decide_eq_true_eq, ge_iff_le,
    UInt32.le_iff_toNat_le] at digit
  exact digit

theorem ne_of_isDigit {c : Char} (digit : c.isDigit = true) : c ∉ ['_', '.', 'e', 'E'] := by
  intro member
  have odd : ['_', '.', 'e', 'E'].any Char.isDigit = false := by decide
  rw [Bool.eq_false_iff.mpr (List.any_eq_false.mp odd c member)] at digit
  cases digit

theorem hexValue?_lt {c : Char} {d : Nat} (read : hexValue? c = some d) : d < 16 ∧ c.toNat < 128 := by
  unfold hexValue? at read
  split at read
  · rename_i digit
    have := toNat_bounds_of_isDigit digit
    cases read
    omega
  · split at read
    · rename_i lower
      have bounds : 97 ≤ c.toNat ∧ c.toNat ≤ 102 := by
        simpa [Char.le_def, UInt32.le_iff_toNat_le] using lower
      cases read
      omega
    · split at read
      · rename_i upper
        have bounds : 65 ≤ c.toNat ∧ c.toNat ≤ 70 := by
          simpa [Char.le_def, UInt32.le_iff_toNat_le] using upper
        cases read
        omega
      · cases read

theorem digitIn?_of_isHex {c : Char} (hex : isHex c = true) : digitIn? 16 c = hexValue? c := by
  obtain ⟨d, read⟩ := Option.isSome_iff_exists.mp hex
  obtain ⟨small, ascii⟩ := hexValue?_lt read
  by_cases digit : c.isDigit = true
  · obtain rfl : c.toNat - 48 = d := by simpa [hexValue?, digit] using read
    simp [digitIn?, decimalValue?_of_isDigit digit, read, small]
  · simp [digitIn?, decimalValue?, ascii, digit, read, small]

theorem digitIn?_of_isDigit {c : Char} (digit : c.isDigit = true) : digitIn? 10 c = hexValue? c := by
  have := toNat_bounds_of_isDigit digit
  have small : c.toNat - 48 < 10 := by omega
  simp [digitIn?, decimalValue?_of_isDigit digit, hexValue?, digit, small]

theorem digitsFrom_eq {base : Nat} {digits : List Char} (value : Nat)
    (known : ∀ c ∈ digits, c ≠ '_' ∧ ∃ d, digitIn? base c = some d ∧ hexValue? c = some d) :
    digitsFrom base value digits =
      some (digits.foldl (fun n c => n * base + (hexValue? c).getD 0) value) := by
  induction digits generalizing value with
  | nil => rfl
  | cons c digits ih =>
    obtain ⟨plain, d, read, same⟩ := known c (by simp)
    rw [digitsFrom, read]
    · simp only [List.foldl_cons, same, Option.getD_some]
      exact ih _ fun e member => known e (by simp [member])
    · exact fun _ _ same _ => plain same

theorem readDigits?_eq {base : Nat} {digits : List Char} (some_ : digits ≠ [])
    (known : ∀ c ∈ digits, c ≠ '_' ∧ ∃ d, digitIn? base c = some d ∧ hexValue? c = some d) :
    readDigits? base digits = some (digitsValue base digits) := by
  cases digits with
  | nil => exact absurd rfl some_
  | cons c digits =>
    obtain ⟨plain, d, read, same⟩ := known c (by simp)
    rw [readDigits?, read, digitsValue, List.foldl_cons, same, Nat.zero_mul, Nat.zero_add]
    exact digitsFrom_eq d fun e member => known e (by simp [member])

namespace Numeral

theorem isDecimal_of_isDigit {c : Char} (digit : c.isDigit = true) : isDecimal c = true := by
  rw [isDecimal, decimalValue?_of_isDigit digit, Option.isSome_some]

theorem exponentLength_eq_zero {rest : List Char} (stops : ∀ c ∈ rest.head?, c ∈ wordEnds) :
    exponentLength rest = 0 := by
  cases rest with
  | nil => rfl
  | cons c rest =>
    have := (not_part_of_mem_wordEnds c (stops c rfl)).2.2.2
    have noMark : (c == 'e' || c == 'E') = false := by simp_all
    simp [exponentLength, noMark]

theorem numberLength?_append (numeral : Numeral) {rest : List Char}
    (stops : ∀ c ∈ rest.head?, c ∈ wordEnds) :
    numberLength? (numeral.chars ++ rest) = some numeral.chars.length := by
  have ends (c : Char) (first : c ∈ rest.head?) := not_part_of_mem_wordEnds c (stops c first)
  cases numeral with
  | decimal first others isNumber canonical short =>
    have run : others.all (fun c => isDecimal c || c == '_') = true := by
      refine List.all_eq_true.mpr fun c member => ?_
      have := List.all_eq_true.mp isNumber.2 c member
      simp only [Bool.or_eq_true] at this ⊢
      exact this.imp_left isDecimal_of_isDigit
    have whole : digitRunLength (first :: others ++ rest) = others.length + 1 := by
      rw [List.cons_append, digitRunLength, if_pos (isDecimal_of_isDigit isNumber.1),
        takeWhile_append_stop run]
      intro c first
      have := ends c first
      simp_all
    have unmarked : markedNumberLength (first :: others ++ rest) = 0 := by
      unfold markedNumberLength
      split
      · rename_i mark behind same
        simp only [List.cons_append, List.cons.injEq] at same
        obtain ⟨rfl, same⟩ := same
        rw [canonical rfl, List.nil_append] at same
        have := ends mark (by rw [same]; rfl)
        have odd : mark ≠ 'x' ∧ mark ≠ 'X' ∧ mark ≠ 'b' ∧ mark ≠ 'B' ∧ mark ≠ 'o' ∧ mark ≠ 'O' := by
          simp_all
        simp [odd]
      · rfl
    have noPoint : rest.head? ≠ some '.' := fun point => by simpa using (ends '.' point).2.2.2
    have behind : (first :: others ++ rest).drop (others.length + 1) = rest := by simp
    simp only [numberLength?, unmarked, chars, whole, behind]
    simp [noPoint, exponentLength_eq_zero stops]
  | hexadecimal capital first others isNumber =>
    have run : (first :: others).all (fun c => isHex c || c == '_') = true := by
      rw [List.all_cons, isNumber.1, isNumber.2]
      rfl
    have digits : (first :: (others ++ rest)).takeWhile (fun c => isHex c || c == '_') =
        first :: others := by
      refine takeWhile_append_stop run fun c first => ?_
      have := ends c first
      simp_all
    cases capital <;> simp [numberLength?, chars, markedNumberLength, digits]

/-- Without the underscores between them the characters of a number are digits. -/
theorem isDigit_of_mem_filter {test : Char → Bool} {first : Char} {others : List Char}
    (isNumber : test first = true ∧ others.all (fun c => test c || c == '_') = true) :
    ∀ c ∈ (first :: others).filter (· != '_'), test c = true := by
  intro c member
  obtain ⟨member, plain⟩ := List.mem_filter.mp member
  rcases List.mem_cons.mp member with rfl | member
  · exact isNumber.1
  · have := List.all_eq_true.mp isNumber.2 c member
    simp_all

theorem readDecimal?_filter {first : Char} {others : List Char}
    (isNumber : first.isDigit = true ∧ others.all (fun c => c.isDigit || c == '_') = true)
    (short : (others.filter (· != '_')).length < maxDecimalDigits) :
    readDecimal? ((first :: others).filter (· != '_')) =
      some (digitsValue 10 ((first :: others).filter (· != '_'))) := by
  have plain : first ≠ '_' := by
    have := ne_of_isDigit isNumber.1
    simp_all
  have length : ¬maxDecimalDigits < ((first :: others).filter (· != '_')).length := by
    rw [List.filter_cons_of_pos (by simpa using plain), List.length_cons]
    omega
  rw [readDecimal?, if_neg (by simpa using length)]
  refine readDigits?_eq (by simp [plain]) fun c member => ⟨by simpa using (List.mem_filter.mp member).2, ?_⟩
  have digit := isDigit_of_mem_filter isNumber c member
  exact ⟨c.toNat - 48, by rw [digitIn?_of_isDigit digit]; simp [hexValue?, digit], by simp [hexValue?, digit]⟩

theorem readDigits?_filter {first : Char} {others : List Char}
    (isNumber : isHex first = true ∧ others.all (fun c => isHex c || c == '_') = true) :
    readDigits? 16 ((first :: others).filter (· != '_')) =
      some (digitsValue 16 ((first :: others).filter (· != '_'))) := by
  have plain : first ≠ '_' := by
    rintro rfl
    cases isNumber.1
  refine readDigits?_eq (by simp [plain]) fun c member => ⟨by simpa using (List.mem_filter.mp member).2, ?_⟩
  have digit := isDigit_of_mem_filter isNumber c member
  obtain ⟨d, same⟩ := Option.isSome_iff_exists.mp digit
  exact ⟨d, by rw [digitIn?_of_isHex digit, same], same⟩

theorem numberValue_text (numeral : Numeral) : numberValue numeral.text = .whole numeral.value := by
  cases numeral with
  | decimal first others isNumber canonical short =>
    have plain : first ≠ '_' := by
      have := ne_of_isDigit isNumber.1
      simp_all
    have whole : ((first :: others).filter (· != '_')).any (fun c => c == '.' || c == 'e' || c == 'E') =
        false := by
      refine List.any_eq_false.mpr fun c member => ?_
      have := ne_of_isDigit (isDigit_of_mem_filter isNumber c member)
      simp_all
    unfold numberValue
    simp only [text, chars, String.toList_ofList]
    split
    · -- a mark of a base would stand behind a leading zero
      rename_i mark rest same
      rw [List.filter_cons_of_pos (by simpa using plain)] at same
      obtain ⟨rfl, same⟩ := List.cons.inj same
      rw [canonical rfl] at same
      cases same
    · rw [if_neg (by simp [whole]), readDecimal?_filter isNumber short]
      rfl
  | hexadecimal capital first others isNumber =>
    have read := readDigits?_filter isNumber
    cases capital <;> simp [numberValue, text, chars, String.toList_ofList, read, value]

/-- A number starts with a digit. -/
theorem exists_chars_eq_cons (numeral : Numeral) :
    ∃ c rest, numeral.chars = c :: rest ∧ c.isDigit = true := by
  cases numeral with
  | decimal first others isNumber canonical short => exact ⟨first, others, rfl, isNumber.1⟩
  | hexadecimal capital first others isNumber => exact ⟨'0', _, rfl, by decide⟩

theorem scanPhp_append (numeral : Numeral) {rest : List Char}
    (stops : ∀ c ∈ rest.head?, c ∈ wordEnds) :
    scanPhp (numeral.chars ++ rest) =
      .ok ⟨numeral.chars.length, some { kind := .number, text := numeral.chars }, .php⟩ := by
  have length := numeral.numberLength?_append stops
  obtain ⟨c, others, start, digit⟩ := numeral.exists_chars_eq_cons
  have word : isAsciiWord c = true := by simp [isAsciiWord, Char.isAlphanum, digit]
  have odd := not_mem_of_isAsciiWord word
  have whole : (numeral.chars ++ rest).take numeral.chars.length = numeral.chars := List.take_left
  rw [start, List.cons_append] at length whole ⊢
  rw [scanPhp_plain _ (by simp_all) (isBlank_of_isAsciiWord word)]
  simp only [scanPlain, variableLength?_eq_none _ (show c ≠ '$' by simp_all), length, Scan.verbatim,
    whole]

end Numeral

end FormHarvest
