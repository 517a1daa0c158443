import FormHarvest.Proofs.Lexemes

namespace FormHarvest

/-- Whether a character cannot stand for itself between single quotes. -/
def needsBackslash (c : Char) : Bool := c == '\\' || c == '\''

/-- A text as it is written between single quotes. -/
def backslashed : List Char → List Char
  | [] => []
  | c :: rest => if needsBackslash c then '\\' :: c :: backslashed rest else c :: backslashed rest

/-- The literal of a text in single quotes. -/
def singleQuoted (text : String) : String :=
  String.ofList ('\'' :: (backslashed text.toList ++ ['\'']))

/-- A source that holds nothing but the literal of a text in single quotes. -/
def singleQuotedSource (text : String) : String := "<?php " ++ singleQuoted text ++ ";"

/-- What is read for a character between single quotes. -/
def singleQuotedChar (c : Char) : Char := if c == '\x00' then '\\' else c

theorem backslashed_of_needsBackslash {c : Char} (special : needsBackslash c = true)
    (rest : List Char) : backslashed (c :: rest) = '\\' :: c :: backslashed rest := by
  simp [backslashed, special]

theorem backslashed_of_plain {c : Char} (plain : needsBackslash c = false) (rest : List Char) :
    backslashed (c :: rest) = c :: backslashed rest := by simp [backslashed, plain]

theorem quotedLength_backslashed (text rest : List Char) :
    quotedLength '\'' (backslashed text ++ '\'' :: rest) = (backslashed text).length + 1 := by
  induction text with
  | nil => simp [backslashed, quotedLength]
  | cons c text ih =>
    cases special : needsBackslash c with
    | true => simp [backslashed_of_needsBackslash special, quotedLength, ih]
    | false =>
      simp only [needsBackslash, Bool.or_eq_false_iff, beq_eq_false_iff_ne] at special
      rw [backslashed_of_plain (by simp [needsBackslash, special]), List.cons_append, quotedLength, ih]
      · simp [special]
      · exact fun _ _ same _ => special.1 same

/-- Each backslash that was put in front of a character is taken away again. What the text itself
holds comes back but for U+0000, which is read as a backslash. -/
theorem singleQuotedValue_backslashed (text : List Char) :
    singleQuotedValue (backslashed text) = text.map singleQuotedChar := by
  induction text with
  | nil => rfl
  | cons c text ih =>
    cases special : needsBackslash c with
    | true =>
      rw [backslashed_of_needsBackslash special]
      simp only [needsBackslash, Bool.or_eq_true, beq_iff_eq] at special
      obtain rfl | rfl := special <;> simp [singleQuotedValue, singleQuotedChar, ih]
    | false =>
      rw [backslashed_of_plain special]
      simp only [needsBackslash, Bool.or_eq_false_iff, beq_eq_false_iff_ne] at special
      rw [singleQuotedValue, ih]
      · rfl
      · exact fun _ same _ => special.1 same
      · exact fun _ same _ => special.1 same

theorem map_singleQuotedChar_eq_iff {text : List Char} :
    text.map singleQuotedChar = text ↔ '\x00' ∉ text := by
  induction text with
  | nil => simp
  | cons c text ih =>
    have first : singleQuotedChar c = c ↔ '\x00' ≠ c := by
      by_cases zero : c = '\x00'
      · subst zero
        decide
      · simp [singleQuotedChar, zero, Ne.symm zero]
    simp [ih, first]

theorem scanPhp_backslashed (text rest : List Char) :
    scanPhp ('\'' :: (backslashed text ++ '\'' :: rest)) =
      .ok ⟨(backslashed text).length + 2,
        some { kind := .string, text := text.map singleQuotedChar }, .php⟩ := by
  have body : quotedBody ((backslashed text).length + 2) ('\'' :: (backslashed text ++ '\'' :: rest)) =
      backslashed text := by
    simp [quotedBody, List.take_append, List.take_of_length_le]
  simp only [scanPhp, quotedLength_backslashed, body, singleQuotedValue_backslashed]

/-- The tokens of a source that holds nothing but a literal in single quotes, where the literal has
a value. -/
def singleQuotedTokens (text value : String) : List Token := [
  { kind := .openTag, text := "<?php", raw := "<?php", line := 1, interpolated := false },
  { kind := .string, text := value, raw := singleQuoted text, line := 1, interpolated := false },
  { kind := .punctuation, text := ";", raw := ";",
    line := 1 + (singleQuoted text).toList.count '\n', interpolated := false }]

theorem sourceTokens_singleQuotedSource (text : String) :
    sourceTokens (singleQuotedSource text) =
      .ok (singleQuotedTokens text (String.ofList (text.toList.map singleQuotedChar))) := by
  have quoted : (singleQuoted text).toList = '\'' :: (backslashed text.toList ++ ['\'']) :=
    String.toList_ofList
  have mark : piecesFrom .php [';'] = .ok [⟨[';'], some { kind := .punctuation, text := [';'] }⟩] :=
    show piecesFrom .php ([';'] ++ []) = _ from
      piecesFrom_append (by simp) rfl (by simp [piecesFrom])
  have literal : scan .php ((singleQuoted text).toList ++ [';']) =
      .ok ⟨(singleQuoted text).toList.length,
        some { kind := .string, text := text.toList.map singleQuotedChar }, .php⟩ := by
    simpa [quoted, scan] using scanPhp_backslashed text.toList [';']
  have filled : (singleQuoted text).toList ≠ [] := by simp [quoted]
  have dark : ∀ c ∈ ((singleQuoted text).toList ++ [';']).head?, isBlank c = false := by
    intro c first
    obtain rfl : '\'' = c := by simpa [quoted] using first
    decide
  have source : (singleQuotedSource text).toList =
      ['<', '?', 'p', 'h', 'p'] ++ ([' '] ++ ((singleQuoted text).toList ++ [';'])) := by
    simp [singleQuotedSource]
  rw [sourceTokens, sourcePieces, source,
    piecesFrom_openTag dark (piecesFrom_append filled literal mark)]
  simp [openingPieces, tokensFrom, singleQuotedTokens, Except.map]

/-- The literal of a text in single quotes is read as the text exactly if the text holds no
U+0000. -/
theorem sourceTokens_singleQuotedSource_iff (text : String) :
    sourceTokens (singleQuotedSource text) = .ok (singleQuotedTokens text text) ↔
      '\x00' ∉ text.toList := by
  rw [sourceTokens_singleQuotedSource, ← map_singleQuotedChar_eq_iff]
  constructor
  · intro same
    have value : String.ofList (text.toList.map singleQuotedChar) = text := by
      simpa [singleQuotedTokens] using same
    simpa using congrArg String.toList value
  · intro same
    rw [same, String.ofList_toList]

/-- U+0000 between single quotes is read as a backslash. -/
theorem sourceTokens_zeroCharacter :
    sourceTokens (singleQuotedSource "\x00") = .ok (singleQuotedTokens "\x00" "\\") ∧
      sourceTokens (singleQuotedSource "\x00") ≠ .ok (singleQuotedTokens "\x00" "\x00") := by
  have read := sourceTokens_singleQuotedSource "\x00"
  have value : String.ofList ("\x00".toList.map singleQuotedChar) = "\\" := by decide
  rw [value] at read
  refine ⟨read, fun same => ?_⟩
  rw [read] at same
  simp [singleQuotedTokens] at same

end FormHarvest
