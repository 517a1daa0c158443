import FormHarvest.Proofs.EscapeFaults
import FormHarvest.Proofs.TokenPlaces

namespace FormHarvest

/-- Whether a comment is a doc comment: a block comment that opens with two asterisks and holds more
than that. -/
def IsDocComment (raw : List Char) : Prop := ['/', '*', '*'] <+: raw ∧ 4 < raw.length

/-- Code that says nothing, in front of what follows it: blanks, a comment up to the end of its line
or to a closing tag, and a block comment up to its closing mark, or to the end of the source if it has
none. Doc comments do say something. -/
inductive Silent : List Char → List Char → Prop
  | blanks {piece rest : List Char} (nonempty : piece ≠ []) (blank : ∀ c ∈ piece, isBlank c) :
    Silent piece rest
  | line {piece rest : List Char}
    (opens : (∃ body, piece = '#' :: body ∧ (body ++ rest).head? ≠ some '[') ∨ ['/', '/'] <+: piece)
    (oneLine : '\n' ∉ piece) (noTag : ¬['?', '>'] <:+: piece)
    (ends : rest = [] ∨ rest.head? = some '\n' ∨ ['?', '>'] <+: rest) : Silent piece rest
  | block {body rest : List Char} (closesOnce : ¬['*', '/'] <:+: body ++ ['*'])
    (noDoc : ¬IsDocComment ('/' :: '*' :: (body ++ ['*', '/']))) :
    Silent ('/' :: '*' :: (body ++ ['*', '/'])) rest
  | unclosed {body : List Char} (staysOpen : ¬['*', '/'] <:+: body)
    (noDoc : ¬IsDocComment ('/' :: '*' :: body)) :
    Silent ('/' :: '*' :: body) []

/-- Silent code between two tokens, in front of what follows it. -/
inductive Gap : List Char → List Char → Prop
  | nothing {rest : List Char} : Gap [] rest
  | silent {piece gap rest : List Char} (first : Silent piece (gap ++ rest)) (others : Gap gap rest) :
    Gap (piece ++ gap) rest

/-- Two characters stand behind each other in a text at its start or behind it. -/
theorem pair_infix_cons_iff {a b c : Char} {rest : List Char} :
    [a, b] <:+: c :: rest ↔ (c = a ∧ ∃ tail, rest = b :: tail) ∨ [a, b] <:+: rest := by
  rw [List.infix_cons_iff, List.cons_prefix_cons, eq_comm]
  constructor
  · rintro (⟨same, tail, rfl⟩ | inside)
    · exact .inl ⟨same, tail, rfl⟩
    · exact .inr inside
  · rintro (⟨same, tail, rfl⟩ | inside)
    · exact .inl ⟨same, tail, rfl⟩
    · exact .inr inside

/-- A block comment goes up to the first closing mark, or to the end if there is none. -/
theorem blockCommentLength_spec (rest : List Char) :
    (∃ body, rest.take (blockCommentLength rest) = body ++ ['*', '/'] ∧
        ¬['*', '/'] <:+: body ++ ['*']) ∨
      rest.drop (blockCommentLength rest) = [] ∧ ¬['*', '/'] <:+: rest := by
  fun_induction blockCommentLength rest with
  | case1 => exact .inr ⟨rfl, by decide⟩
  | case2 rest => exact .inl ⟨[], rfl, by decide⟩
  | case3 c rest other ih =>
    rcases ih with ⟨body, taken, once⟩ | ⟨nothing, never⟩
    · refine .inl ⟨c :: body, by rw [List.take_succ_cons, taken]; rfl, ?_⟩
      rw [List.cons_append, pair_infix_cons_iff]
      rintro (⟨same, tail, closes⟩ | inside)
      · obtain ⟨more, rfl⟩ : ∃ more, body = '/' :: more := by
          cases body with
          | nil => cases closes
          | cons d more => cases closes; exact ⟨more, rfl⟩
        have whole := List.take_append_drop (blockCommentLength rest) rest
        rw [taken] at whole
        exact other _ same whole.symm
      · exact once inside
    · refine .inr ⟨nothing, ?_⟩
      rw [pair_infix_cons_iff]
      rintro (⟨same, tail, closes⟩ | inside)
      · exact other tail same closes
      · exact never inside

/-- A line comment goes up to the end of the line, to a closing tag or to the end. -/
theorem lineCommentLength_spec (text : List Char) :
    '\n' ∉ text.take (lineCommentLength text) ∧
      ¬['?', '>'] <:+: text.take (lineCommentLength text) ∧
      (text.drop (lineCommentLength text) = [] ∨
        (text.drop (lineCommentLength text)).head? = some '\n' ∨
        ['?', '>'] <+: text.drop (lineCommentLength text)) := by
  have nothing : ¬['?', '>'] <:+: [] := by decide
  fun_induction lineCommentLength text with
  | case1 => exact ⟨List.not_mem_nil, nothing, .inl rfl⟩
  | case2 rest => exact ⟨List.not_mem_nil, nothing, .inr (.inl rfl)⟩
  | case3 rest => exact ⟨List.not_mem_nil, nothing, .inr (.inr ⟨rest, rfl⟩)⟩
  | case4 c rest noEnd noTag ih =>
    obtain ⟨oneLine, never, ends⟩ := ih
    refine ⟨?_, ?_, ends⟩
    · rw [List.take_succ_cons, List.mem_cons]
      rintro (same | inside)
      · exact noEnd same.symm
      · exact oneLine inside
    · rw [List.take_succ_cons, pair_infix_cons_iff]
      rintro (⟨same, tail, closes⟩ | inside)
      · have whole := List.take_append_drop (lineCommentLength rest) rest
        rw [closes] at whole
        exact noTag _ same whole.symm
      · exact never inside

theorem lineCommentLength_pos {c : Char} {rest : List Char} (noEnd : c ≠ '\n') (noTag : c ≠ '?') :
    0 < lineCommentLength (c :: rest) := by
  rw [lineCommentLength]
  · omega
  · exact noEnd
  · exact fun _ same => absurd same noTag

theorem openTagLength?_pos {text : List Char} {n : Nat} (found : openTagLength? text = some n) :
    0 < n := by
  unfold openTagLength? at found
  split at found
  · dsimp only at found
    split at found
    · cases found
      decide
    · split at found
      · cases found
        decide
      · split at found
        · cases found
        · cases found
          decide
  · cases found

theorem htmlLength_pos {c : Char} {rest : List Char} (noTag : openTagLength? (c :: rest) = none) :
    0 < htmlLength (c :: rest) := by
  rw [htmlLength, noTag]
  exact Nat.succ_pos _

theorem variableLength?_pos {text : List Char} {n : Nat} (found : variableLength? text = some n) :
    0 < n := by
  unfold variableLength? at found
  split at found
  · obtain ⟨m, -, rfl⟩ := Option.map_eq_some_iff.mp found
    omega
  · cases found

theorem segmentLength?_pos {text : List Char} {n : Nat} (found : segmentLength? text = some n) :
    0 < n := by
  unfold segmentLength? at found
  split at found
  · cases found
  · split at found
    · cases found
      omega
    · cases found

theorem nameLength?_pos {text : List Char} {n : Nat} (found : nameLength? text = some n) : 0 < n := by
  obtain ⟨m, segment, rfl⟩ := Option.map_eq_some_iff.mp found
  have positive := segmentLength?_pos segment
  omega

theorem operatorAt?_length_pos {text : List Char} {op : String} (found : operatorAt? text = some op) :
    0 < op.length := by
  have all : ∀ op ∈ operators, 0 < op.length := by decide
  exact all op (List.mem_of_find?_eq_some found)

theorem blockStart?_length_pos {text : List Char} {start : BlockStart}
    (opened : blockStart? text = some start) : 0 < start.length := by
  unfold blockStart? at opened
  split at opened
  · extract_lets spaces atQuote quote width atLabel at opened
    clear_value atLabel
    split at opened
    · split at opened
      · extract_lets label afterLabel length at opened
        split at opened
        · cases opened
        · split at opened <;> cases opened
          · exact Nat.succ_pos _
          · exact Nat.succ_pos _
      · cases opened
    · cases opened
  · cases opened

theorem blockText_length_pos {c : Char} {rest : List Char} {start : BlockStart}
    (opened : blockStart? (c :: rest) = some start) : 0 < (blockText start (c :: rest)).2 := by
  have positive := blockStart?_length_pos opened
  unfold blockText
  dsimp only
  split
  · dsimp only
    omega
  · exact Nat.succ_pos _

/-- The mode behind a token: only tags change it. -/
def SourceMode.after (mode : SourceMode) : TokenKind → SourceMode
  | .openTag => .php
  | .closeTag => .html
  | _ => mode

/-- What a step of the lexer does to a text: it takes some of it, the mode changes at tags only, and a
piece that gives no token is silent code. -/
structure Scan.Fits (mode : SourceMode) (text : List Char) (found : Scan) : Prop where
  takes : 0 < found.length
  changes : ∀ reading, found.reading = some reading → found.mode = mode.after reading.kind
  silent : found.reading = none → mode = SourceMode.php ∧ found.mode = SourceMode.php ∧
    Silent (text.take found.length) (text.drop found.length)

namespace Scan.Fits

variable {mode : SourceMode} {text : List Char}

theorem token {next : SourceMode} {length : Nat} {reading : Reading} (takes : 0 < length)
    (same : next = mode.after reading.kind) : Fits mode text ⟨length, some reading, next⟩ where
  takes
  changes other read := by
    cases read
    exact same
  silent nothing := by cases nothing

theorem nothing {length : Nat} (takes : 0 < length)
    (silent : Silent (text.take length) (text.drop length)) :
    Fits .php text ⟨length, none, .php⟩ where
  takes
  changes _ read := by cases read
  silent _ := ⟨rfl, rfl, silent⟩

theorem html {c : Char} {rest : List Char} : Fits .html (c :: rest) (scanHtml (c :: rest)) := by
  unfold scanHtml
  split
  · rename_i tag
    exact token (openTagLength?_pos tag) rfl
  · rename_i noTag
    exact token (htmlLength_pos noTag) rfl

theorem plain : Fits .php text (scanPlain text) := by
  unfold scanPlain
  split
  · rename_i found
    exact token (variableLength?_pos found) rfl
  · split
    · rename_i found
      exact token (numberLength?_pos found) rfl
    · split
      · rename_i found
        exact token (nameLength?_pos found) rfl
      · split
        · exact token (by decide) rfl
        · split
          · rename_i found
            exact token (operatorAt?_length_pos found) rfl
          · split
            · exact token (by decide) rfl
            · exact token (by decide) rfl

theorem doubleQuoted {length : Nat} {body : List Char} {found : Scan} (takes : 0 < length)
    (scanned : Scan.doubleQuoted length body = .ok found) : Fits .php text found := by
  unfold Scan.doubleQuoted at scanned
  cases known : doubleQuotedValue body with
  | error fault => rw [known] at scanned; cases scanned
  | ok value =>
    rw [known] at scanned
    cases scanned
    exact token takes rfl

theorem blockComment {rest : List Char}
    (noDoc : ¬((rest.head? == some '*' && 4 < blockCommentLength rest + 2) = true)) :
    Fits .php ('/' :: '*' :: rest) ⟨blockCommentLength rest + 2, none, .php⟩ := by
  have noDoc' : ¬IsDocComment ('/' :: '*' :: rest.take (blockCommentLength rest)) := by
    rintro ⟨⟨tail, opens⟩, long⟩
    have starts : '*' :: tail = rest.take (blockCommentLength rest) := by simpa using opens
    have atStar : rest.head? = some '*' := by
      rw [← List.take_append_drop (blockCommentLength rest) rest, ← starts]
      rfl
    have most := List.length_take_le (blockCommentLength rest) rest
    simp only [List.length_cons] at long
    refine noDoc ?_
    rw [atStar, beq_self_eq_true, Bool.true_and, decide_eq_true_eq]
    omega
  refine nothing (Nat.succ_pos _) ?_
  rw [List.take_succ_cons, List.take_succ_cons]
  rcases blockCommentLength_spec rest with ⟨body, taken, once⟩ | ⟨ends, never⟩
  · rw [taken] at noDoc' ⊢
    exact .block once noDoc'
  · have whole : rest.take (blockCommentLength rest) = rest :=
      List.take_of_length_le (List.drop_eq_nil_iff.mp ends)
    rw [whole] at noDoc' ⊢
    rw [List.drop_succ_cons, List.drop_succ_cons, ends]
    exact .unclosed never noDoc'

theorem blanks {c : Char} {rest : List Char} (blank : isBlank c) :
    Fits .php (c :: rest) ⟨(rest.takeWhile isBlank).length + 1, none, .php⟩ := by
  have taken : rest.take (rest.takeWhile isBlank).length = rest.takeWhile isBlank :=
    (List.prefix_iff_eq_take.mp (List.takeWhile_prefix isBlank)).symm
  refine nothing (Nat.succ_pos _) (.blanks (List.cons_ne_nil _ _) ?_)
  rw [List.take_succ_cons, taken, List.forall_mem_cons]
  exact ⟨blank, fun other member => List.mem_takeWhile_imp member⟩

theorem lineComment {c : Char} {rest : List Char}
    (opens : (c == '#' && rest.head? != some '[') || ['/', '/'].isPrefixOf (c :: rest)) :
    Fits .php (c :: rest) ⟨lineCommentLength (c :: rest), none, .php⟩ := by
  obtain ⟨oneLine, never, ends⟩ := lineCommentLength_spec (c :: rest)
  rw [Bool.or_eq_true, Bool.and_eq_true, beq_iff_eq, bne_iff_ne] at opens
  rcases opens with ⟨rfl, noAttribute⟩ | slashes
  · have positive : 0 < lineCommentLength ('#' :: rest) := lineCommentLength_pos (by decide) (by decide)
    refine nothing positive (.line (.inl ?_) oneLine never ends)
    obtain ⟨n, same⟩ := Nat.exists_eq_succ_of_ne_zero positive.ne'
    rw [same]
    exact ⟨rest.take n, rfl, by rw [List.drop_succ_cons, List.take_append_drop]; exact noAttribute⟩
  · obtain ⟨more, same⟩ := List.isPrefixOf_iff_prefix.mp slashes
    obtain ⟨rfl, rfl⟩ : '/' = c ∧ '/' :: more = rest := by simpa using same
    have length : lineCommentLength ('/' :: '/' :: more) = lineCommentLength more + 2 := by
      rw [lineCommentLength, lineCommentLength] <;> simp
    rw [length] at oneLine never ends ⊢
    have opens : ['/', '/'] <+: ('/' :: '/' :: more).take (lineCommentLength more + 2) :=
      ⟨more.take (lineCommentLength more), rfl⟩
    exact nothing (Nat.succ_pos _) (.line (.inr opens) oneLine never ends)

/-- Every step of the lexer fits what stands before it. -/
theorem of_scan {c : Char} {rest : List Char} {found : Scan}
    (scanned : scan mode (c :: rest) = .ok found) : Fits mode (c :: rest) found := by
  cases mode with
  | html =>
    cases scanned
    exact html
  | php =>
    have scanned : scanPhp (c :: rest) = .ok found := scanned
    unfold scanPhp at scanned
    split at scanned
    case h_1 noText => cases noText
    case h_2 =>
      cases scanned
      exact token (by decide) rfl
    case h_3 rest' same =>
      cases same
      cases scanned
      split
      · exact token (Nat.succ_pos _) rfl
      · rename_i noDoc
        exact blockComment noDoc
    case h_4 =>
      cases scanned
      exact token (Nat.succ_pos _) rfl
    case h_5 => exact doubleQuoted (Nat.succ_pos _) scanned
    case h_6 =>
      cases scanned
      exact token (Nat.succ_pos _) rfl
    case h_7 =>
      rename_i same
      cases same
      split at scanned
      · rename_i blank
        cases scanned
        exact blanks blank
      split at scanned
      · rename_i opens
        cases scanned
        exact lineComment opens
      split at scanned
      · rename_i start opened
        dsimp only at scanned
        split at scanned
        · cases scanned
          exact token (blockText_length_pos opened) rfl
        · exact doubleQuoted (blockText_length_pos opened) scanned
      · cases scanned
        exact plain

end Scan.Fits

/-- A text is used up by silent code and tokens in turn, from a mode and a line on: each token stands on
the line it says, and silent code stands in code only. -/
inductive Accounted : SourceMode → Nat → List Char → List Token → Prop
  | rest {mode : SourceMode} {line : Nat} {gap : List Char} (silent : Gap gap [])
    (inCode : gap ≠ [] → mode = .php) : Accounted mode line gap []
  | token {mode : SourceMode} {line : Nat} {gap text : List Char} {token : Token} {tokens : List Token}
    (silent : Gap gap (token.raw.toList ++ text)) (inCode : gap ≠ [] → mode = .php)
    (nonempty : token.raw ≠ "") (onLine : token.line = line + gap.count '\n')
    (behind :
      Accounted (mode.after token.kind) (token.line + token.raw.toList.count '\n') text tokens) :
    Accounted mode line (gap ++ (token.raw.toList ++ text)) (token :: tokens)

namespace Accounted

theorem behind_silent {line : Nat} {piece text : List Char} {tokens : List Token}
    (first : Silent piece text) (behind : Accounted .php (line + piece.count '\n') text tokens) :
    Accounted .php line (piece ++ text) tokens := by
  cases behind with
  | rest silent =>
    rw [← List.append_nil text] at first
    exact .rest (.silent first silent) fun _ => rfl
  | token silent inCode nonempty onLine behind =>
    rw [← List.append_assoc]
    refine .token (.silent first silent) (fun _ => rfl) nonempty ?_ behind
    rw [onLine, List.count_append, Nat.add_assoc]

/-- The tokens of the pieces of a text account for it. -/
theorem of_piecesFrom {mode : SourceMode} {text : List Char} {pieces : List Piece}
    (read : piecesFrom mode text = .ok pieces) (line : Nat) :
    Accounted mode line text (tokensFrom line pieces) := by
  fun_induction piecesFrom mode text generalizing pieces line with
  | case1 =>
    cases read
    exact .rest .nothing (absurd rfl)
  | case2 => cases read
  | case3 => cases read
  | case4 mode c rest found scanned raw further others =>
    rename_i ih
    cases read
    have fits := Scan.Fits.of_scan scanned
    obtain ⟨n, same⟩ := Nat.exists_eq_succ_of_ne_zero fits.takes.ne'
    have taken : (c :: rest).take found.length = raw := by
      rw [same, List.take_succ_cons]
      simp only [raw, same, Nat.succ_eq_add_one, Nat.add_sub_cancel]
    have dropped : (c :: rest).drop found.length = rest.drop (found.length - 1) := by
      rw [same]
      rfl
    have whole : c :: rest = raw ++ rest.drop (found.length - 1) := by
      rw [← taken, ← dropped, List.take_append_drop]
    have behind := ih others (line + raw.count '\n')
    rw [whole, tokensFrom]
    cases means : found.reading with
    | none =>
      obtain ⟨rfl, inCode, silent⟩ := fits.silent means
      rw [taken, dropped] at silent
      rw [inCode] at behind
      exact behind_silent silent behind
    | some reading =>
      rw [fits.changes reading means] at behind
      let token : Token :=
        { kind := reading.kind, text := String.ofList reading.text, raw := String.ofList raw, line,
          interpolated := reading.interpolated }
      have written : token.raw.toList = raw := String.toList_ofList
      have nonempty : token.raw ≠ "" := fun empty =>
        List.cons_ne_nil c _ (written.symm.trans (congrArg String.toList empty))
      have accounted : Accounted mode line ([] ++ (token.raw.toList ++ rest.drop (found.length - 1)))
          (token :: tokensFrom (line + token.raw.toList.count '\n') further) :=
        .token .nothing (absurd rfl) nonempty rfl (by rw [written]; exact behind)
      rw [written] at accounted
      exact accounted

end Accounted

/-- What is written by tokens, each with the gap in front of it. -/
def written (parts : List (List Char × Token)) : List Char :=
  parts.flatMap fun part => part.1 ++ part.2.raw.toList

theorem written_cons (gap : List Char) (token : Token) (parts : List (List Char × Token)) :
    written ((gap, token) :: parts) = gap ++ (token.raw.toList ++ written parts) := by
  rw [written, List.flatMap_cons, List.append_assoc]
  rfl

/-- The mode behind tokens. -/
def SourceMode.afterAll (mode : SourceMode) (tokens : List Token) : SourceMode :=
  tokens.foldl (fun mode token => mode.after token.kind) mode

/-- A text, read from a mode and a line on, is what is written by tokens with gaps in front of them and
by a last gap. A token stands on the line that the line ends before it give, and a gap in the mode that
the tokens before it give. -/
structure Accounts (mode : SourceMode) (line : Nat) (text : List Char)
    (parts : List (List Char × Token)) (last : List Char) : Prop where
  whole : text = written parts ++ last
  nonempty : ∀ part ∈ parts, part.2.raw ≠ ""
  onLine : ∀ earlier gap token later, parts = earlier ++ (gap, token) :: later →
    token.line = line + (written earlier ++ gap).count '\n'
  silent : ∀ earlier gap token later, parts = earlier ++ (gap, token) :: later →
    Gap gap (token.raw.toList ++ (written later ++ last))
  inCode : ∀ earlier gap token later, parts = earlier ++ (gap, token) :: later → gap ≠ [] →
    mode.afterAll (earlier.map Prod.snd) = .php
  silentLast : Gap last []
  lastInCode : last ≠ [] → mode.afterAll (parts.map Prod.snd) = .php

namespace Accounts

theorem nothing {mode : SourceMode} {line : Nat} {gap : List Char} (silent : Gap gap [])
    (inCode : gap ≠ [] → mode = .php) : Accounts mode line gap [] gap where
  whole := rfl
  nonempty := List.forall_mem_nil _
  onLine earlier _ _ _ parts := by cases earlier <;> cases parts
  silent earlier _ _ _ parts := by cases earlier <;> cases parts
  inCode earlier _ _ _ parts := by cases earlier <;> cases parts
  silentLast := silent
  lastInCode := inCode

theorem cons {mode : SourceMode} {line : Nat} {gap text last : List Char} {token : Token}
    {parts : List (List Char × Token)} (silent : Gap gap (token.raw.toList ++ text))
    (inCode : gap ≠ [] → mode = .php) (nonempty : token.raw ≠ "")
    (onLine : token.line = line + gap.count '\n')
    (behind :
      Accounts (mode.after token.kind) (token.line + token.raw.toList.count '\n') text parts last) :
    Accounts mode line (gap ++ (token.raw.toList ++ text)) ((gap, token) :: parts) last where
  whole := by
    rw [behind.whole, written_cons, List.append_assoc, List.append_assoc]
  nonempty := List.forall_mem_cons.mpr ⟨nonempty, behind.nonempty⟩
  onLine earlier inner other later same := by
    cases earlier with
    | nil =>
      cases same
      exact onLine
    | cons first earlier =>
      cases same
      rw [behind.onLine earlier inner other later rfl, onLine, written_cons]
      simp only [List.count_append]
      omega
  silent earlier inner other later same := by
    cases earlier with
    | nil =>
      cases same
      rw [← behind.whole]
      exact silent
    | cons first earlier =>
      cases same
      exact behind.silent earlier inner other later rfl
  inCode earlier inner other later same := by
    cases earlier with
    | nil =>
      cases same
      exact inCode
    | cons first earlier =>
      cases same
      exact behind.inCode earlier inner other later rfl
  silentLast := behind.silentLast
  lastInCode := behind.lastInCode

end Accounts

theorem Accounted.exists_parts {mode : SourceMode} {line : Nat} {text : List Char}
    {tokens : List Token} (accounted : Accounted mode line text tokens) :
    ∃ parts last, parts.map Prod.snd = tokens ∧ Accounts mode line text parts last := by
  induction accounted with
  | @rest mode line gap silent inCode => exact ⟨[], gap, rfl, .nothing silent inCode⟩
  | @token mode line gap text token tokens silent inCode nonempty onLine behind ih =>
    obtain ⟨parts, last, rfl, accounts⟩ := ih
    exact ⟨(gap, token) :: parts, last, rfl, .cons silent inCode nonempty onLine accounts⟩

/-- The lexer gets on at every step, and comes to the end of every source whose escapes can be read.
Its tokens then account for all characters and lines of the source. -/
theorem sourceTokens_accounts {source : String}
    (readable : ¬ReadsHugeCodePoint .html source.toList) :
    (∀ mode c rest found, scan mode (c :: rest) = .ok found → 0 < found.length) ∧
      ∃ parts last, sourceTokens source = .ok (parts.map Prod.snd) ∧
        Accounts .html 1 source.toList parts last := by
  refine ⟨fun mode c rest found scanned => (Scan.Fits.of_scan scanned).takes, ?_⟩
  cases read : sourcePieces source.toList with
  | error fault => exact absurd (piecesFrom_eq_error_iff.mp read) readable
  | ok pieces =>
    obtain ⟨parts, last, same, accounts⟩ := (Accounted.of_piecesFrom read 1).exists_parts
    exact ⟨parts, last, by rw [sourceTokens, read, same]; rfl, accounts⟩

/-- A page with a block text, comments, a string over two lines, and a comment without an end. -/
def openComment : String := "<p>\n<?php # a\n$x = <<<E\nb\nE; /* c\n */ 'd\ne' /* no end"

theorem openComment_accounted :
    ∃ parts last, sourceTokens openComment = .ok (parts.map Prod.snd) ∧
      Accounts .html 1 openComment.toList parts last ∧
      parts.map (fun part => (part.2.raw, part.2.line))
        = [("<p>\n", 1), ("<?php", 2), ("$x", 3), ("=", 3), ("<<<E\nb\nE", 3), (";", 5),
          ("'d\ne'", 6)] := by
  have tokens : (sourceTokens openComment).toOption.map (List.map fun token => (token.raw, token.line))
      = some [("<p>\n", 1), ("<?php", 2), ("$x", 3), ("=", 3), ("<<<E\nb\nE", 3), (";", 5),
          ("'d\ne'", 6)] := by
    decide +kernel
  have readable : ¬ReadsHugeCodePoint .html openComment.toList := by
    intro huge
    have failed : sourceTokens openComment = .error .codePointOverflow :=
      map_eq_error_iff.mpr (piecesFrom_eq_error_iff.mpr huge)
    rw [failed] at tokens
    cases tokens
  obtain ⟨-, parts, last, read, accounts⟩ := sourceTokens_accounts readable
  refine ⟨parts, last, read, accounts, ?_⟩
  rw [read] at tokens
  have same := Option.some.inj tokens
  rw [List.map_map] at same
  exact same

end FormHarvest
