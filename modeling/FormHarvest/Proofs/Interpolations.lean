import FormHarvest.Proofs.EscapeFaults

namespace FormHarvest

/-- Reading a text from its start, each backslash together with the character behind it, comes to a
spot of some kind. What a spot is may depend on whether the character right before it is a
backslash, which was then read together with another one. -/
inductive ReadsTo (spot : Bool → List Char → Bool) : Bool → List Char → Prop
  | here {behindBackslash : Bool} {place : List Char} :
    spot behindBackslash place = true → ReadsTo spot behindBackslash place
  | plain {behindBackslash : Bool} {c : Char} {rest : List Char} :
    c ≠ '\\' → ReadsTo spot false rest → ReadsTo spot behindBackslash (c :: rest)
  | escape {behindBackslash : Bool} {c : Char} {rest : List Char} :
    ReadsTo spot (c == '\\') rest → ReadsTo spot behindBackslash ('\\' :: c :: rest)

theorem ReadsTo.mono {narrow wide : Bool → List Char → Bool} {behindBackslash : Bool}
    {text : List Char} (reads : ReadsTo narrow behindBackslash text)
    (wider : ∀ behind place, narrow behind place = true → wide behind place = true) :
    ReadsTo wide behindBackslash text := by
  induction reads with
  | here isSpot => exact .here (wider _ _ isSpot)
  | plain other _ ih => exact .plain other ih
  | escape _ ih => exact .escape ih

/-- A variable starts here, by the rule for variables in code, or an expression in braces. -/
def opensInterpolation : List Char → Bool
  | '$' :: c :: _ => isNameStart c || c == '{'
  | '{' :: '$' :: _ => true
  | _ => false

/-- A text between double quotes names a variable or an expression in braces that no backslash
escapes. -/
def MeetsInterpolation (body : List Char) : Prop :=
  ReadsTo (fun _ place => opensInterpolation place) false body

/-- What the lexer looks for: a variable whose name starts in ASCII, or an expression in braces, that
does not stand right behind a backslash. -/
def isPlainSpot (behindBackslash : Bool) (place : List Char) : Bool :=
  !behindBackslash && startsInterpolation place

/-- A text between double quotes names a variable or an expression in braces that no backslash
escapes, where no escaped backslash stands right before it and its name starts in ASCII. -/
def MeetsPlainInterpolation (body : List Char) : Prop := ReadsTo isPlainSpot false body

theorem opensInterpolation_of_startsInterpolation {place : List Char}
    (starts : startsInterpolation place = true) : opensInterpolation place = true := by
  unfold startsInterpolation at starts
  split at starts
  · rename_i c _
    simp only [Bool.or_eq_true] at starts
    obtain (letter | underscore) | brace := starts
    · simp [opensInterpolation, isNameStart, letter]
    · simp [opensInterpolation, isNameStart, underscore]
    · simp [opensInterpolation, brace]
  · rfl
  · cases starts

theorem MeetsPlainInterpolation.meets {body : List Char} (meets : MeetsPlainInterpolation body) :
    MeetsInterpolation body :=
  meets.mono fun _ _ isSpot => by
    simp only [isPlainSpot, Bool.and_eq_true] at isSpot
    exact opensInterpolation_of_startsInterpolation isSpot.2

theorem startsInterpolation_backslash (rest : List Char) :
    startsInterpolation ('\\' :: rest) = false := by
  simp [startsInterpolation]

/-- Behind a backslash nothing is looked at, so the character there is passed over together with
it. -/
theorem interpolatesAfter_escape (behindBackslash : Bool) (c : Char) (rest : List Char) :
    interpolatesAfter behindBackslash ('\\' :: c :: rest) = interpolatesAfter (c == '\\') rest := by
  simp [interpolatesAfter, startsInterpolation_backslash]

/-- The look at one character before a spot finds all spots but those right behind an escaped
backslash. -/
theorem interpolatesAfter_iff {behindBackslash : Bool} {text : List Char} :
    interpolatesAfter behindBackslash text = true ↔ ReadsTo isPlainSpot behindBackslash text := by
  constructor
  · intro found
    induction text using List.twoStepInduction generalizing behindBackslash with
    | nil => cases found
    | singleton c => simp [interpolatesAfter, startsInterpolation] at found
    | cons_cons c d rest behindPair behindOne =>
      by_cases isBackslash : c = '\\'
      · subst isBackslash
        rw [interpolatesAfter_escape] at found
        exact .escape (behindPair found)
      · rw [interpolatesAfter, beq_eq_false_iff_ne.mpr isBackslash, Bool.or_eq_true] at found
        exact found.elim (fun isSpot => .here isSpot) fun further => .plain isBackslash (behindOne d further)
  · intro reads
    induction reads with
    | @here _ place isSpot =>
      cases place with
      | nil => simp [isPlainSpot, startsInterpolation] at isSpot
      | cons c rest => exact Bool.or_eq_true _ _ |>.mpr (.inl isSpot)
    | plain other _ ih =>
      rw [interpolatesAfter, beq_eq_false_iff_ne.mpr other, ih, Bool.or_true]
    | escape _ ih => rwa [interpolatesAfter_escape]

theorem interpolates_iff {body : List Char} :
    interpolates body = true ↔ MeetsPlainInterpolation body := interpolatesAfter_iff

theorem exists_scanPhp_of_opensDoubleQuoted {text body : List Char} {found : Scan}
    (opens : OpensDoubleQuoted text body) (scanned : scanPhp text = .ok found) :
    ∃ value, found.reading =
      some { kind := .string, text := value, interpolated := interpolates body } := by
  obtain ⟨length, quoted⟩ := exists_scanPhp_eq_doubleQuoted opens
  rw [quoted, Scan.doubleQuoted] at scanned
  cases read : doubleQuotedValue body with
  | error fault => rw [read] at scanned; cases scanned
  | ok value =>
    rw [read] at scanned
    cases scanned
    exact ⟨value, rfl⟩

/-- The token of a text in double quotes, or of a block text that is read like one, is marked as
interpolated exactly if the text names a plain variable or expression. So the mark is right exactly
if a text that names any of them names a plain one as well. -/
theorem interpolated_iff_of_opensDoubleQuoted {text body : List Char} {pieces : List Piece}
    (opens : OpensDoubleQuoted text body) (read : piecesFrom .php text = .ok pieces) (line : Nat) :
    ∃ token behind, tokensFrom line pieces = token :: behind ∧ token.kind = .string ∧
      (token.interpolated = true ↔ MeetsPlainInterpolation body) ∧
      ((token.interpolated = true ↔ MeetsInterpolation body) ↔
        (MeetsInterpolation body → MeetsPlainInterpolation body)) := by
  cases text with
  | nil => exact absurd opens not_opensDoubleQuoted_nil
  | cons c rest =>
    rw [piecesFrom] at read
    cases scanned : scanPhp (c :: rest) with
    | error fault => simp only [scan, scanned] at read; cases read
    | ok found =>
      obtain ⟨value, reading⟩ := exists_scanPhp_of_opensDoubleQuoted opens scanned
      simp only [scan, scanned] at read
      split at read
      · cases read
      · cases read
        simp only [tokensFrom, reading]
        refine ⟨_, _, rfl, rfl, interpolates_iff, ?_⟩
        rw [interpolates_iff]
        exact ⟨fun right => right.mpr, fun plain => ⟨fun meets => meets.meets, plain⟩⟩

theorem interpolated_greeting :
    OpensDoubleQuoted "\"Hello $name\"".toList "Hello $name".toList ∧
      ∃ pieces, piecesFrom .php "\"Hello $name\"".toList = .ok pieces ∧
        ∃ token behind, tokensFrom 1 pieces = token :: behind ∧ token.kind = .string ∧
          (token.interpolated = true ↔ MeetsPlainInterpolation "Hello $name".toList) ∧
          ((token.interpolated = true ↔ MeetsInterpolation "Hello $name".toList) ↔
            (MeetsInterpolation "Hello $name".toList → MeetsPlainInterpolation "Hello $name".toList)) := by
  have opens : OpensDoubleQuoted "\"Hello $name\"".toList "Hello $name".toList :=
    .quotes "Hello $name\"".toList
  have read : piecesFrom .php "\"Hello $name\"".toList =
      .ok [⟨"\"Hello $name\"".toList,
        some { kind := .string, text := "Hello $name".toList, interpolated := true }⟩] := by
    cbv
  exact ⟨opens, _, read, interpolated_iff_of_opensDoubleQuoted opens read 1⟩

/-- A variable behind an escaped backslash, and one whose name does not start in ASCII, are not
noticed. -/
theorem missedInterpolations_are_not_marked :
    sourceTokens "<?php \"\\\\$name\" . \"$été\"" = .ok [
        { kind := .openTag, text := "<?php", raw := "<?php", line := 1, interpolated := false },
        { kind := .string, text := "\\$name", raw := "\"\\\\$name\"", line := 1,
          interpolated := false },
        { kind := .operator, text := ".", raw := ".", line := 1, interpolated := false },
        { kind := .string, text := "$été", raw := "\"$été\"", line := 1, interpolated := false }] ∧
      MeetsInterpolation "\\\\$name".toList ∧ MeetsInterpolation "$été".toList :=
  ⟨by cbv, .escape (.here (by decide)), .here (by decide)⟩

end FormHarvest
