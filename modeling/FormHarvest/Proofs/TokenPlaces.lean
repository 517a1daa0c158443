import FormHarvest.Php.Lexer

namespace FormHarvest

/-- A token is written in a source, and its first character stands on the line of the token. -/
def Token.StandsIn (source : String) (token : Token) : Prop :=
  ∃ before after, source.toList = before ++ token.raw.toList ++ after ∧ token.raw ≠ "" ∧
    token.line = before.count '\n' + 1

/-- Every piece comes from one step of the lexer on a text that is not empty. -/
theorem scanned_of_mem_piecesFrom {mode : SourceMode} {text : List Char} {pieces : List Piece}
    (read : piecesFrom mode text = .ok pieces) (piece : Piece) (member : piece ∈ pieces) :
    ∃ mode c rest found, scan mode (c :: rest) = .ok found ∧ piece.reading = found.reading ∧
      piece.raw = c :: rest.take (found.length - 1) := by
  fun_induction piecesFrom mode text generalizing pieces with
  | case1 =>
    cases read
    cases member
  | case2 => cases read
  | case3 => cases read
  | case4 mode c rest found scanned raw further others =>
    rename_i ih
    cases read
    rcases List.mem_cons.mp member with rfl | member
    · exact ⟨mode, c, rest, found, scanned, rfl, rfl⟩
    · exact ih others member

/-- Each token comes from a piece, and the line breaks before the piece give the line. -/
theorem exists_piece_of_mem_tokensFrom {line : Nat} {pieces : List Piece} {token : Token}
    (member : token ∈ tokensFrom line pieces) :
    ∃ earlier piece later reading, pieces = earlier ++ piece :: later ∧
      piece.reading = some reading ∧
      token = { kind := reading.kind, text := String.ofList reading.text,
                raw := String.ofList piece.raw,
                line := line + (earlier.flatMap Piece.raw).count '\n',
                interpolated := reading.interpolated } := by
  induction pieces generalizing line with
  | nil => cases member
  | cons first rest ih =>
    have behind (member : token ∈ tokensFrom (line + first.raw.count '\n') rest) :
        ∃ earlier piece later reading, first :: rest = earlier ++ piece :: later ∧
          piece.reading = some reading ∧
          token = { kind := reading.kind, text := String.ofList reading.text,
                    raw := String.ofList piece.raw,
                    line := line + (earlier.flatMap Piece.raw).count '\n',
                    interpolated := reading.interpolated } := by
      obtain ⟨earlier, piece, later, reading, parts, read, same⟩ := ih member
      refine ⟨first :: earlier, piece, later, reading, by rw [parts]; rfl, read, ?_⟩
      rw [same, List.flatMap_cons, List.count_append, Nat.add_assoc]
    simp only [tokensFrom] at member
    split at member
    · exact behind member
    · rename_i reading read
      rcases List.mem_cons.mp member with same | member
      · exact ⟨[], first, rest, reading, rfl, read, by simpa using same⟩
      · exact behind member

section Source

variable {source : String} {tokens : List Token} {token : Token}

/-- Every token comes from one step of the lexer, and its line counts the line ends before it. -/
theorem exists_scan_of_mem_sourceTokens (read : sourceTokens source = .ok tokens)
    (member : token ∈ tokens) :
    ∃ before raw after mode c rest found reading, source.toList = before ++ raw ++ after ∧ raw ≠ [] ∧
      scan mode (c :: rest) = .ok found ∧ found.reading = some reading ∧
      token = { kind := reading.kind, text := String.ofList reading.text, raw := String.ofList raw,
                line := 1 + before.count '\n', interpolated := reading.interpolated } := by
  unfold sourceTokens at read
  cases cut : sourcePieces source.toList with
  | error fault => rw [cut] at read; cases read
  | ok pieces =>
    rw [cut] at read
    cases read
    obtain ⟨earlier, piece, later, reading, parts, isRead, same⟩ := exists_piece_of_mem_tokensFrom member
    have whole := flatMap_raw_piecesFrom cut
    obtain ⟨mode, c, rest, found, scanned, sameReading, raw⟩ :=
      scanned_of_mem_piecesFrom cut piece (by rw [parts]; simp)
    refine ⟨earlier.flatMap Piece.raw, piece.raw, later.flatMap Piece.raw, mode, c, rest, found,
      reading, ?_, ?_, scanned, sameReading ▸ isRead, same⟩
    · rw [← whole, parts, List.flatMap_append, List.flatMap_cons, List.append_assoc]
    · rw [raw]
      exact List.cons_ne_nil _ _

theorem standsIn_of_mem_sourceTokens (read : sourceTokens source = .ok tokens)
    (member : token ∈ tokens) : token.StandsIn source := by
  obtain ⟨before, raw, after, _, _, _, _, _, whole, nonempty, -, -, rfl⟩ :=
    exists_scan_of_mem_sourceTokens read member
  refine ⟨before, after, ?_, ?_, Nat.add_comm _ _⟩
  · rw [String.toList_ofList, whole]
  · simpa using nonempty

theorem numberLength?_pos {text : List Char} {n : Nat} (found : numberLength? text = some n) :
    0 < n := by
  unfold numberLength? at found
  extract_lets marked whole point fraction length at found
  split at found
  · have same := Option.some.inj found
    omega
  · split at found
    · cases found
    · rename_i nonempty
      have same := Option.some.inj found
      simp only [Bool.and_eq_true, decide_eq_true_eq] at nonempty
      omega

theorem text_ne_nil_of_scanPlain {text : List Char} {reading : Reading} (nonempty : text ≠ [])
    (read : (scanPlain text).reading = some reading) (number : reading.kind = .number) :
    reading.text ≠ [] := by
  unfold scanPlain at read
  split at read
  · cases read
    cases number
  · split at read
    · rename_i n found
      cases read
      have positive := numberLength?_pos found
      simp only [ne_eq, List.take_eq_nil_iff, nonempty, or_false]
      omega
    · repeat' split at read
      all_goals
        cases read
        cases number

theorem kind_of_doubleQuoted {length : Nat} {body : List Char} {found : Scan} {reading : Reading}
    (scanned : Scan.doubleQuoted length body = .ok found) (read : found.reading = some reading) :
    reading.kind = .string := by
  unfold Scan.doubleQuoted at scanned
  cases known : doubleQuotedValue body with
  | error fault => rw [known] at scanned; cases scanned
  | ok value =>
    rw [known] at scanned
    cases scanned
    cases read
    rfl

/-- Only a piece of plain code is a number. -/
theorem text_ne_nil_of_scan {mode : SourceMode} {c : Char} {rest : List Char} {found : Scan}
    {reading : Reading} (scanned : scan mode (c :: rest) = .ok found)
    (read : found.reading = some reading) (number : reading.kind = .number) : reading.text ≠ [] := by
  cases mode with
  | html =>
    cases scanned
    unfold scanHtml at read
    split at read <;> cases read <;> cases number
  | php =>
    have noString (text : reading.kind = .string) : False := by
      rw [number] at text
      cases text
    have scanned : scanPhp (c :: rest) = .ok found := scanned
    unfold scanPhp at scanned
    split at scanned
    case h_3 =>
      cases scanned
      dsimp only at read
      split at read <;> cases read
      cases number
    case h_5 => exact (noString (kind_of_doubleQuoted scanned read)).elim
    case h_7 =>
      split at scanned
      · cases scanned
        cases read
      · split at scanned
        · cases scanned
          cases read
        · split at scanned
          · dsimp only at scanned
            split at scanned
            · cases scanned
              cases read
              cases number
            · exact (noString (kind_of_doubleQuoted scanned read)).elim
          · cases scanned
            exact text_ne_nil_of_scanPlain (List.cons_ne_nil _ _) read number
    all_goals
      cases scanned
      cases read
    all_goals cases number

theorem text_ne_empty_of_number (read : sourceTokens source = .ok tokens) (member : token ∈ tokens)
    (number : token.kind = .number) : token.text ≠ "" := by
  obtain ⟨_, _, _, _, _, _, _, _, -, -, scanned, isRead, rfl⟩ :=
    exists_scan_of_mem_sourceTokens read member
  have nonempty := text_ne_nil_of_scan scanned isRead number
  simpa using nonempty

end Source

end FormHarvest
