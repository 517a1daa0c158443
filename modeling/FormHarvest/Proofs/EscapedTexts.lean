import FormHarvest.Php.Lexer

namespace FormHarvest

/-- Whether a character cannot stand for itself between double quotes. -/
def needsEscape (c : Char) : Bool := c == '\\' || c == '"' || c == '$'

/-- A text as it is written between double quotes. -/
def escaped : List Char → List Char
  | [] => []
  | c :: rest => if needsEscape c then '\\' :: c :: escaped rest else c :: escaped rest

theorem escaped_of_needsEscape {c : Char} (special : needsEscape c = true) (rest : List Char) :
    escaped (c :: rest) = '\\' :: c :: escaped rest := by simp [escaped, special]

theorem escaped_of_plain {c : Char} (plain : needsEscape c = false) (rest : List Char) :
    escaped (c :: rest) = c :: escaped rest := by simp [escaped, plain]

/-- An escape sign takes the character after it along, so the closing quote is the first one that
is seen. -/
theorem quotedLength_escaped (text rest : List Char) :
    quotedLength '"' (escaped text ++ '"' :: rest) = (escaped text).length + 1 := by
  induction text with
  | nil => simp [escaped, quotedLength]
  | cons c text ih =>
    cases special : needsEscape c with
    | true => simp [escaped_of_needsEscape special, quotedLength, ih]
    | false =>
      simp only [needsEscape, Bool.or_eq_false_iff, beq_eq_false_iff_ne] at special
      rw [escaped_of_plain (by simp [needsEscape, special]), List.cons_append, quotedLength, ih]
      · simp [special]
      · exact fun _ _ same _ => special.1.1 same

theorem escapeAfter?_of_needsEscape {c : Char} (special : needsEscape c = true) (rest : List Char) :
    escapeAfter? (c :: rest) = .ok (some (c.toNat, 1)) := by
  simp only [needsEscape, Bool.or_eq_true, beq_iff_eq] at special
  obtain (rfl | rfl) | rfl := special <;> rfl

theorem doubleQuotedCodes_escaped (text : List Char) :
    doubleQuotedCodes (escaped text) = .ok (text.map Char.toNat) := by
  unfold doubleQuotedCodes
  induction text with
  | nil => rfl
  | cons c text ih =>
    cases special : needsEscape c with
    | true =>
      rw [escaped_of_needsEscape special]
      simp [doubleQuotedFrom, escapeAfter?_of_needsEscape special, ih, Except.map]
    | false =>
      have plain : c ≠ '\\' := by
        rintro rfl
        cases special
      rw [escaped_of_plain special]
      simp [doubleQuotedFrom, plain, ih, Except.map]

theorem doubleQuotedValue_escaped (text : List Char) : doubleQuotedValue (escaped text) = .ok text := by
  rw [doubleQuotedValue, doubleQuotedCodes_escaped, Except.map, map_characterOf_toNat]

theorem startsInterpolation_cons_escaped {c : Char} (plain : c ≠ '$') (text : List Char) :
    startsInterpolation (c :: escaped text) = false := by
  cases text with
  | nil => simp [escaped, startsInterpolation]
  | cons d text =>
    cases special : needsEscape d with
    | true => simp [escaped_of_needsEscape special, startsInterpolation, plain]
    | false =>
      have other : d ≠ '$' := by
        rintro rfl
        cases special
      simp [escaped_of_plain special, startsInterpolation, plain, other]

/-- A dollar sign is only met right after the backslash that escapes it. -/
theorem interpolates_escaped (text : List Char) : interpolates (escaped text) = false := by
  have anywhere (backslash : Bool) : interpolatesAfter backslash (escaped text) = false := by
    induction text generalizing backslash with
    | nil => rfl
    | cons c text ih =>
      cases special : needsEscape c with
      | true =>
        rw [escaped_of_needsEscape special]
        simp [interpolatesAfter, startsInterpolation, ih]
      | false =>
        have plain : c ≠ '$' := by
          rintro rfl
          cases special
        rw [escaped_of_plain special]
        simp [interpolatesAfter, startsInterpolation_cons_escaped plain, ih]
  exact anywhere false

/-- A text between double quotes is read as the text that was written. -/
theorem scanPhp_escaped (text rest : List Char) :
    scanPhp ('"' :: (escaped text ++ '"' :: rest)) =
      .ok ⟨(escaped text).length + 2, some { kind := .string, text }, .php⟩ := by
  have body : quotedBody ((escaped text).length + 2) ('"' :: (escaped text ++ '"' :: rest)) =
      escaped text := by
    simp [quotedBody, List.take_append, List.take_of_length_le]
  simp only [scanPhp, quotedLength_escaped, Scan.doubleQuoted, body, doubleQuotedValue_escaped,
    interpolates_escaped, Except.map]

end FormHarvest
