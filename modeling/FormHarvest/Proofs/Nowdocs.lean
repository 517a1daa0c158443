import FormHarvest.Proofs.FoundFiles
import FormHarvest.Proofs.Lexemes

namespace FormHarvest

/-- A line begins with spaces and tabs and a label that ends there as a word. -/
def OpensWithLabel (label line : List Char) : Prop :=
  ∃ blanks after, line = blanks ++ (label ++ after) ∧ (∀ c ∈ blanks, isSpaceOrTab c = true) ∧
    ∀ c ∈ after.head?, isWord c = false

/-- A block text that is not looked into, by its label, its indentation and its lines. No line, put
behind the indentation, could be taken for the closing one, and what ends the last line is not
taken for a part of the line end. -/
structure Nowdoc where
  label : Identifier
  indent : List Char
  lines : List (List Char)
  indented : ∀ c ∈ indent, isSpaceOrTab c = true
  unbroken : ∀ line ∈ lines, '\n' ∉ line
  unclosed : ∀ line ∈ lines, ¬OpensWithLabel label.chars (indent ++ line)
  noReturn : ∀ line ∈ lines.getLast?, line.getLast? ≠ some '\r'

/-! ### Lines of a text -/

/-- Lines, each with its end. -/
def endedLines (lines : List (List Char)) : List Char := lines.flatMap fun line => line ++ ['\n']

theorem endedLines_cons (line : List Char) (lines : List (List Char)) :
    endedLines (line :: lines) = line ++ '\n' :: endedLines lines := by
  simp [endedLines]

theorem joinWith_cons_cons (separator line next : List Char) (lines : List (List Char)) :
    joinWith separator (line :: next :: lines) = line ++ separator ++ joinWith separator (next :: lines) := rfl

theorem endedLines_eq_joinWith {lines : List (List Char)} (filled : lines ≠ []) :
    endedLines lines = joinWith ['\n'] lines ++ ['\n'] := by
  induction lines with
  | nil => exact absurd rfl filled
  | cons line lines ih =>
    cases lines with
    | nil => simp [endedLines, joinWith]
    | cons next lines =>
      simp [endedLines_cons line, ih (List.cons_ne_nil _ _), joinWith_cons_cons]

theorem count_endedLines {lines : List (List Char)} (unbroken : ∀ line ∈ lines, '\n' ∉ line) :
    (endedLines lines).count '\n' = lines.length := by
  induction lines with
  | nil => rfl
  | cons line lines ih =>
    obtain ⟨first, others⟩ := List.forall_mem_cons.mp unbroken
    rw [endedLines_cons, List.count_append, List.count_eq_zero.mpr first, List.count_cons_self, ih others,
      List.length_cons, Nat.zero_add]

/-- Splitting undoes joining where no line holds the mark. -/
theorem piecesAt_joinWith {mark : Char} {lines : List (List Char)} (filled : lines ≠ [])
    (unbroken : ∀ line ∈ lines, mark ∉ line) : piecesAt mark (joinWith [mark] lines) = lines := by
  induction lines with
  | nil => exact absurd rfl filled
  | cons line lines ih =>
    obtain ⟨first, others⟩ := List.forall_mem_cons.mp unbroken
    cases lines with
    | nil => exact piecesAt_of_notMem first
    | cons next lines =>
      rw [joinWith_cons_cons, List.append_assoc, List.singleton_append, piecesAt_append first,
        ih (List.cons_ne_nil _ _) others]

theorem dropLastLineEnd_append {text : List Char} (noReturn : text.getLast? ≠ some '\r') :
    dropLastLineEnd (text ++ ['\n']) = text := by
  rw [← List.head?_reverse] at noReturn
  rw [dropLastLineEnd, List.reverse_append, List.reverse_singleton, List.singleton_append]
  split
  · rename_i rest same
    rw [(List.cons.inj same).2] at noReturn
    exact absurd rfl noReturn
  · rename_i rest _ same
    rw [← (List.cons.inj same).2, List.reverse_reverse]
  · rename_i other
    exact absurd rfl (other text.reverse)

theorem getLast?_joinWith {mark : Char} {lines : List (List Char)} (last : Char)
    (ends : ∀ line ∈ lines.getLast?, line.getLast? ≠ some last) (apart : last ≠ mark) :
    (joinWith [mark] lines).getLast? ≠ some last := by
  induction lines with
  | nil => exact nofun
  | cons line lines ih =>
    cases lines with
    | nil => exact ends line rfl
    | cons next lines =>
      have further := ih (by simpa using ends)
      rw [joinWith_cons_cons, List.getLast?_append]
      cases behind : (joinWith [mark] (next :: lines)).getLast? with
      | none =>
        rw [Option.none_or, List.getLast?_append]
        simpa using Ne.symm apart
      | some c =>
        rw [behind] at further
        exact further

/-! ### The closing label -/

theorem isWord_of_isAsciiWord {c : Char} (word : isAsciiWord c = true) : isWord c = true := by
  have := toNat_bounds_of_isAsciiWord word
  have ascii : c.toNat < 128 := by omega
  rw [isWord, if_pos ascii]
  exact word

theorem isSpaceOrTab_of_isAsciiWord {c : Char} (word : isAsciiWord c = true) : isSpaceOrTab c = false := by
  rw [isSpaceOrTab, Bool.or_eq_false_iff, beq_eq_false_iff_ne, beq_eq_false_iff_ne]
  constructor <;> rintro rfl <;> revert word <;> decide

section Closing

variable {label : List Char}

theorem closingIndent?_append {blanks text : List Char} (allBlank : ∀ c ∈ blanks, isSpaceOrTab c = true)
    (stops : ∀ c ∈ text.head?, isSpaceOrTab c = false) :
    closingIndent? label (blanks ++ text) =
      if label.isPrefixOf text && !(text.drop label.length).head?.any isWord then some blanks else none := by
  have indent := takeWhile_append_stop (List.all_eq_true.mpr allBlank) stops
  simp only [closingIndent?, indent, List.drop_left]

theorem Identifier.lineFeed_notMem_chars (label : Identifier) : '\n' ∉ label.chars := by
  have words : ∀ c ∈ label.chars, isAsciiWord c = true :=
    List.forall_mem_cons.mpr ⟨label.isAsciiWord_first, List.all_eq_true.mp label.goesOn⟩
  exact fun member => absurd (words _ member) (by decide)

/-- A label that is found at the start of a line lies within that line. -/
theorem opensWithLabel_of_closingIndent? {line rest indent : List Char} (whole : '\n' ∉ label)
    (closes : closingIndent? label (line ++ '\n' :: rest) = some indent) : OpensWithLabel label line := by
  have parts := List.takeWhile_append_dropWhile (p := isSpaceOrTab) (l := line)
  have dark := List.head?_dropWhile_not isSpaceOrTab line
  have allBlank : ∀ c ∈ line.takeWhile isSpaceOrTab, isSpaceOrTab c = true := fun c => List.mem_takeWhile_imp
  generalize line.takeWhile isSpaceOrTab = blanks at parts allBlank
  generalize line.dropWhile isSpaceOrTab = text at parts dark
  subst parts
  have stops : ∀ c ∈ (text ++ '\n' :: rest).head?, isSpaceOrTab c = false := by
    intro c first
    cases text with
    | nil =>
      obtain rfl : '\n' = c := by simpa using first
      decide
    | cons d text =>
      obtain rfl : d = c := by simpa using first
      exact dark
  rw [List.append_assoc, closingIndent?_append allBlank stops] at closes
  simp only [Option.ite_none_right_eq_some, Bool.and_eq_true, Bool.not_eq_true',
    List.isPrefixOf_iff_prefix] at closes
  obtain ⟨⟨⟨after, atLabel⟩, ends⟩, -⟩ := closes
  rw [← atLabel, List.drop_left] at ends
  rcases List.append_eq_append_iff.mp atLabel with ⟨inside, rfl, rfl⟩ | ⟨behind, rfl, lineEnd⟩
  · refine ⟨blanks, inside, rfl, allBlank, fun c first => ?_⟩
    cases inside with
    | nil => exact nomatch first
    | cons d inside =>
      obtain rfl : d = c := by simpa using first
      simpa using ends
  · -- the label would reach over the end of the line
    cases behind with
    | nil => exact ⟨blanks, [], by simp, allBlank, nofun⟩
    | cons d behind =>
      obtain rfl : '\n' = d := (List.cons.inj lineEnd).1
      exact absurd (List.mem_append_right _ List.mem_cons_self) whole

/-- Within a line nothing closes a block text. -/
theorem beforeClosing?_within {front rest : List Char} (unbroken : '\n' ∉ front) :
    beforeClosing? label false (front ++ '\n' :: rest) =
      (beforeClosing? label true rest).map fun found => (front ++ '\n' :: found.1, found.2) := by
  induction front with
  | nil => simp [beforeClosing?]
  | cons c front ih =>
    rw [List.mem_cons, not_or] at unbroken
    have noEnd : (c == '\n') = false := by simpa using Ne.symm unbroken.1
    simp [beforeClosing?, noEnd, ih unbroken.2, Function.comp_def]

/-- A line that does not begin with the label belongs to the block text. -/
theorem beforeClosing?_line {line rest : List Char} (whole : '\n' ∉ label) (unbroken : '\n' ∉ line)
    (unclosed : ¬OpensWithLabel label line) :
    beforeClosing? label true (line ++ '\n' :: rest) =
      (beforeClosing? label true rest).map fun found => (line ++ '\n' :: found.1, found.2) := by
  have noLabel : closingIndent? label (line ++ '\n' :: rest) = none :=
    Option.eq_none_iff_forall_ne_some.mpr fun _ closes => unclosed (opensWithLabel_of_closingIndent? whole closes)
  cases line with
  | nil => simp_all [beforeClosing?]
  | cons c line =>
    rw [List.mem_cons, not_or] at unbroken
    have noEnd : (c == '\n') = false := by simpa using Ne.symm unbroken.1
    rw [List.cons_append] at noLabel ⊢
    simp [beforeClosing?, noLabel, noEnd, beforeClosing?_within unbroken.2, Function.comp_def]

theorem beforeClosing?_endedLines {lines : List (List Char)} {rest body indent : List Char}
    (whole : '\n' ∉ label) (unbroken : ∀ line ∈ lines, '\n' ∉ line)
    (unclosed : ∀ line ∈ lines, ¬OpensWithLabel label line)
    (closes : beforeClosing? label true rest = some (body, indent)) :
    beforeClosing? label true (endedLines lines ++ rest) = some (endedLines lines ++ body, indent) := by
  induction lines with
  | nil => simpa [endedLines] using closes
  | cons line lines ih =>
    obtain ⟨first, others⟩ := List.forall_mem_cons.mp unbroken
    obtain ⟨stays, stay⟩ := List.forall_mem_cons.mp unclosed
    rw [endedLines_cons, List.append_assoc, List.cons_append, beforeClosing?_line whole first stays, ih others stay]
    simp

/-- Whether a line begins with a label can be computed: it is what the search for the closing one
looks for. -/
theorem opensWithLabel_iff (label : Identifier) (line : List Char) :
    OpensWithLabel label.chars line ↔ (closingIndent? label.chars (line ++ ['\n'])).isSome = true := by
  constructor
  · rintro ⟨blanks, after, rfl, allBlank, ends⟩
    have stops : ∀ c ∈ (label.chars ++ (after ++ ['\n'])).head?, isSpaceOrTab c = false := by
      intro c first
      obtain rfl : label.first = c := by simpa [Identifier.chars] using first
      exact isSpaceOrTab_of_isAsciiWord label.isAsciiWord_first
    have boundary : (after ++ ['\n']).head?.any isWord = false := by
      cases after with
      | nil => decide
      | cons c after => exact ends c rfl
    rw [List.append_assoc, List.append_assoc, closingIndent?_append allBlank stops, List.drop_left, boundary]
    simp
  · intro closes
    obtain ⟨indent, closes⟩ := Option.isSome_iff_exists.mp closes
    exact opensWithLabel_of_closingIndent? label.lineFeed_notMem_chars closes

instance (label : Identifier) (line : List Char) : Decidable (OpensWithLabel label.chars line) :=
  decidable_of_iff _ (opensWithLabel_iff label line).symm

end Closing

namespace Nowdoc

variable (block : Nowdoc)

/-- The first line with its end: the label in single quotes. -/
def firstLine : List Char := '<' :: '<' :: '<' :: '\'' :: (block.label.chars ++ ['\'', '\n'])

/-- The lines of the text, each behind the indentation. -/
def indentedLines : List (List Char) := block.lines.map (block.indent ++ ·)

/-- The block text as it is written, with the closing label behind the same indentation. -/
def written : List Char :=
  block.firstLine ++ (endedLines block.indentedLines ++ (block.indent ++ block.label.chars))

/-- The token of the block text where it starts on a line. -/
def token (line : Nat) : Token where
  kind := .string
  text := String.ofList (joinWith ['\n'] block.lines)
  raw := String.ofList block.written
  line
  interpolated := false

theorem lineFeed_notMem_indent : '\n' ∉ block.indent := fun member =>
  absurd (block.indented _ member) (by decide)

/-- What the first line says. -/
def start : BlockStart := ⟨some '\'', block.label.chars, block.firstLine.length⟩

theorem blockStart?_written (rest : List Char) : blockStart? (block.written ++ rest) = some block.start := by
  obtain ⟨label, indent, lines⟩ := block
  obtain ⟨first, others, starts, goesOn⟩ := label
  have goesOnAsWord : others.all isWord = true :=
    List.all_eq_true.mpr fun c member => isWord_of_isAsciiWord (List.all_eq_true.mp goesOn c member)
  have word (text : List Char) : (others ++ '\'' :: text).takeWhile isWord = others :=
    takeWhile_append_stop goesOnAsWord (by simp [show isWord '\'' = false by decide])
  simp [blockStart?, written, firstLine, start, Identifier.chars, isSpaceOrTab, starts, word]
  exact ⟨rfl, by omega⟩

theorem unbroken_indentedLines : ∀ line ∈ block.indentedLines, '\n' ∉ line := by
  simp only [indentedLines, List.forall_mem_map, List.mem_append, not_or]
  exact fun line member => ⟨block.lineFeed_notMem_indent, block.unbroken line member⟩

/-- The carriage return that would belong to the last line end does not stand there. -/
theorem noReturn_indentedLines : ∀ line ∈ block.indentedLines.getLast?, line.getLast? ≠ some '\r' := by
  intro line last
  obtain ⟨given, isLast, rfl⟩ : ∃ given, block.lines.getLast? = some given ∧ block.indent ++ given = line := by
    simpa [indentedLines, List.getLast?_map] using last
  have apart := block.noReturn given isLast
  rw [List.getLast?_append]
  cases behind : given.getLast? with
  | none =>
    intro isReturn
    rw [Option.none_or] at isReturn
    exact absurd (block.indented _ (List.mem_of_getLast? isReturn)) (by decide)
  | some c =>
    rw [behind] at apart
    exact apart

/-- Without the last line end and the indentation the lines are joined as they were given. -/
theorem unindented_written :
    unindented block.indent (dropLastLineEnd (endedLines block.indentedLines)) = joinWith ['\n'] block.lines := by
  by_cases filled : block.lines = []
  · simp [indentedLines, filled, endedLines, dropLastLineEnd, unindented, piecesAt, joinWith, unindentedLine]
  have indentedFilled : block.indentedLines ≠ [] := by simpa [indentedLines] using filled
  have line (text : List Char) : unindentedLine block.indent (block.indent ++ text) = text := by
    simp [unindentedLine]
  rw [endedLines_eq_joinWith indentedFilled,
    dropLastLineEnd_append (getLast?_joinWith '\r' block.noReturn_indentedLines (by decide))]
  cases empty : block.indent.isEmpty with
  | true =>
    rw [List.isEmpty_iff] at empty
    simp [indentedLines, empty, unindented]
  | false =>
    rw [unindented, empty, piecesAt_joinWith indentedFilled block.unbroken_indentedLines]
    simp [indentedLines, Function.comp_def, line]

/-- The closing label is found behind the lines, and none before it. -/
theorem beforeClosing?_written {rest : List Char} (ends : ∀ c ∈ rest.head?, isWord c = false) :
    beforeClosing? block.label.chars true
        (endedLines block.indentedLines ++ (block.indent ++ (block.label.chars ++ rest))) =
      some (endedLines block.indentedLines, block.indent) := by
  have stops : ∀ c ∈ (block.label.chars ++ rest).head?, isSpaceOrTab c = false := by
    intro c first
    obtain rfl : block.label.first = c := by simpa [Identifier.chars] using first
    exact isSpaceOrTab_of_isAsciiWord block.label.isAsciiWord_first
  have boundary : rest.head?.any isWord = false := by
    cases rest with
    | nil => rfl
    | cons c rest => exact ends c rfl
  have closes : closingIndent? block.label.chars (block.indent ++ (block.label.chars ++ rest)) =
      some block.indent := by
    rw [closingIndent?_append block.indented stops, List.drop_left, boundary]
    simp
  have atLabel : beforeClosing? block.label.chars true (block.indent ++ (block.label.chars ++ rest)) =
      some ([], block.indent) := by
    cases text : block.indent ++ (block.label.chars ++ rest) with
    | nil => simp [Identifier.chars] at text
    | cons c others =>
      rw [text] at closes
      simp [beforeClosing?, closes]
  have found := beforeClosing?_endedLines block.label.lineFeed_notMem_chars block.unbroken_indentedLines
    (List.forall_mem_map.mpr block.unclosed) atLabel
  rwa [List.append_nil] at found

theorem blockText_written {rest : List Char} (ends : ∀ c ∈ rest.head?, isWord c = false) :
    blockText block.start (block.written ++ rest) = (joinWith ['\n'] block.lines, block.written.length) := by
  have behindStart : (block.written ++ rest).drop block.start.length =
      endedLines block.indentedLines ++ (block.indent ++ (block.label.chars ++ rest)) := by
    rw [written, List.append_assoc, List.append_assoc, List.append_assoc]
    exact List.drop_left
  have found : beforeClosing? block.start.label true ((block.written ++ rest).drop block.start.length) =
      some (endedLines block.indentedLines, block.indent) := by
    rw [behindStart]
    exact block.beforeClosing?_written ends
  simp only [blockText, found, unindented_written]
  simp [written, start]
  omega

theorem scanPhp_written {rest : List Char} (ends : ∀ c ∈ rest.head?, isWord c = false) :
    scanPhp (block.written ++ rest) =
      .ok ⟨block.written.length, some { kind := .string, text := joinWith ['\n'] block.lines }, .php⟩ := by
  have opened := block.blockStart?_written rest
  have held := block.blockText_written ends
  obtain ⟨text, begins⟩ : ∃ text, block.written ++ rest = '<' :: '<' :: '<' :: text := ⟨_, rfl⟩
  rw [begins] at opened held ⊢
  simp only [scanPhp, opened, held]
  rfl

/-- The line of the closing label is as far behind the first line as there are lines and one
more. -/
theorem count_written : block.written.count '\n' = block.lines.length + 1 := by
  have indent := List.count_eq_zero.mpr block.lineFeed_notMem_indent
  have label := List.count_eq_zero.mpr block.label.lineFeed_notMem_chars
  have lines := count_endedLines block.unbroken_indentedLines
  rw [indentedLines, List.length_map] at lines
  simp [written, firstLine, indentedLines, lines, indent, label]

/-- The semicolon on a line. -/
def semicolonToken (line : Nat) : Token :=
  { kind := .punctuation, text := ";", raw := ";", line, interpolated := false }

/-- The pieces of the block text and of the semicolon behind it. -/
def pieces : List Piece := [
  ⟨block.written, some { kind := .string, text := joinWith ['\n'] block.lines }⟩,
  ⟨[';'], some { kind := .punctuation, text := [';'] }⟩]

theorem piecesFrom_written {behind : List Char} {others : List Piece}
    (read : piecesFrom .php behind = .ok others) :
    piecesFrom .php (block.written ++ ';' :: behind) = .ok (block.pieces ++ others) := by
  have mark : piecesFrom .php ([';'] ++ behind) =
      .ok (⟨[';'], some { kind := .punctuation, text := [';'] }⟩ :: others) :=
    piecesFrom_append (by simp) rfl read
  have ends : ∀ c ∈ ([';'] ++ behind).head?, isWord c = false := by
    intro c first
    obtain rfl : ';' = c := by simpa using first
    decide
  have filled : block.written ≠ [] := by simp [written, firstLine]
  exact piecesFrom_append filled (block.scanPhp_written ends) mark

theorem tokensFrom_pieces (line : Nat) (others : List Piece) :
    tokensFrom line (block.pieces ++ others) =
      block.token line :: semicolonToken (line + block.lines.length + 1) ::
        tokensFrom (line + block.lines.length + 1) others := by
  simp [pieces, tokensFrom, token, semicolonToken, count_written, Nat.add_assoc]

/-- The token of the opening tag of a source. -/
def openTagToken : Token :=
  { kind := .openTag, text := "<?php", raw := "<?php", line := 1, interpolated := false }

theorem tokensFrom_openingPieces (others : List Piece) :
    tokensFrom 1 (openingPieces ++ others) = openTagToken :: tokensFrom 1 others := by
  simp [openingPieces, openTagToken, tokensFrom]

/-- A source that starts with the block text and a semicolon. -/
def source (behind : List Char) : String :=
  "<?php " ++ String.ofList block.written ++ ";" ++ String.ofList behind

/-- Wherever the block text stands in PHP code, on any line, with a semicolon and any readable code
behind it, its token holds the lines joined by line feeds, and the next token is the semicolon on the
line of the closing label. So it is right behind the opening tag of a source. -/
theorem tokens_written {behind : List Char} {others : List Piece} (read : piecesFrom .php behind = .ok others)
    (line : Nat) :
    (∃ pieces, piecesFrom .php (block.written ++ ';' :: behind) = .ok pieces ∧
      tokensFrom line pieces = block.token line :: semicolonToken (line + block.lines.length + 1) ::
        tokensFrom (line + block.lines.length + 1) others) ∧
    sourceTokens (block.source behind) =
      .ok (openTagToken :: block.token 1 :: semicolonToken (block.lines.length + 2) ::
        tokensFrom (block.lines.length + 2) others) := by
  have pieces := block.piecesFrom_written read
  have dark : ∀ c ∈ (block.written ++ ';' :: behind).head?, isBlank c = false := by
    intro c first
    obtain rfl : '<' = c := by simpa [written, firstLine] using first
    decide
  have text : (block.source behind).toList =
      ['<', '?', 'p', 'h', 'p'] ++ ([' '] ++ (block.written ++ ';' :: behind)) := by
    simp [source]
  have sameLine : 1 + block.lines.length + 1 = block.lines.length + 2 := by omega
  refine ⟨⟨_, pieces, block.tokensFrom_pieces line others⟩, ?_⟩
  rw [sourceTokens, sourcePieces, text, piecesFrom_openTag dark pieces, Except.map, tokensFrom_openingPieces,
    tokensFrom_pieces, sameLine]

/-- A block text with a dollar sign, an empty line and a line that begins like the label. -/
def priceList : Nowdoc where
  label := ⟨'E', ['O', 'T'], by decide, by decide⟩
  indent := [' ', '\t']
  lines := ["Cost $price\r".toList, [], " EOTs".toList]
  indented := List.all_eq_true.mp (by decide)
  unbroken := by decide
  unclosed := by decide
  noReturn := by decide

theorem tokens_priceList :
    piecesFrom .php "\n$x".toList = .ok [⟨['\n'], none⟩, ⟨['$', 'x'], some { kind := .variable, text := ['x'] }⟩] ∧
    (∃ pieces, piecesFrom .php (priceList.written ++ ';' :: "\n$x".toList) = .ok pieces ∧
      tokensFrom 7 pieces = [priceList.token 7, semicolonToken 11,
        { kind := .variable, text := "x", raw := "$x", line := 12, interpolated := false }]) ∧
    sourceTokens (priceList.source "\n$x".toList) = .ok [openTagToken, priceList.token 1, semicolonToken 5,
      { kind := .variable, text := "x", raw := "$x", line := 6, interpolated := false }] ∧
    (priceList.token 1).text = "Cost $price\r\n\n EOTs" := by
  have read : piecesFrom .php "\n$x".toList =
      .ok [⟨['\n'], none⟩, ⟨['$', 'x'], some { kind := .variable, text := ['x'] }⟩] := by
    cbv
  have lines : priceList.lines.length = 3 := rfl
  have variableToken (line : Nat) :
      tokensFrom line [⟨['\n'], none⟩, ⟨['$', 'x'], some { kind := .variable, text := ['x'] }⟩] =
        [{ kind := .variable, text := "x", raw := "$x", line := line + 1, interpolated := false }] := rfl
  have tokens := priceList.tokens_written read 7
  simp only [lines, variableToken] at tokens
  exact ⟨read, tokens.1, tokens.2, by decide⟩

end Nowdoc

end FormHarvest
