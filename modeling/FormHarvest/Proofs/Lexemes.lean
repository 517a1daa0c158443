import FormHarvest.Proofs.EscapedTexts
import FormHarvest.Proofs.WrittenWords

namespace FormHarvest

/-- What stands in a doc comment between its opening and its closing mark. -/
structure DocBody where
  chars : List Char
  open_ : ¬['*', '/'] <:+: '*' :: chars

namespace DocBody

def text (doc : DocBody) : String := String.ofList ('/' :: '*' :: '*' :: (doc.chars ++ ['*', '/']))

end DocBody

/-- The signs between names, numbers and texts. -/
inductive Punctuator where
  | openParen | closeParen | openBracket | closeBracket | openBrace | closeBrace
  | comma | semicolon | arrow | doubleColon | doubleArrow | ellipsis | minus
deriving DecidableEq

namespace Punctuator

def kind : Punctuator → TokenKind
  | arrow | doubleColon | doubleArrow | ellipsis | minus => .operator
  | _ => .punctuation

def text : Punctuator → String
  | openParen => "("
  | closeParen => ")"
  | openBracket => "["
  | closeBracket => "]"
  | openBrace => FormHarvest.openBrace
  | closeBrace => FormHarvest.closeBrace
  | comma => ","
  | semicolon => ";"
  | arrow => "->"
  | doubleColon => "::"
  | doubleArrow => "=>"
  | ellipsis => "..."
  | minus => "-"

end Punctuator

/-- The smallest parts of a source that have a meaning. -/
inductive Lexeme where
  | name (path : NamePath)
  | var (name : Identifier)
  | number (numeral : Numeral)
  | string (text : String)
  | doc (body : DocBody)
  | sign (sign : Punctuator)

namespace Lexeme

def kind : Lexeme → TokenKind
  | .name _ => .name
  | .var _ => .variable
  | .number _ => .number
  | .string _ => .string
  | .doc _ => .docComment
  | .sign mark => mark.kind

/-- What a lexeme means. -/
def text : Lexeme → String
  | .name path => path.text
  | .var identifier => identifier.text
  | .number numeral => numeral.text
  | .string text => text
  | .doc body => body.text
  | .sign mark => mark.text

/-- A lexeme as it is written: variables after a dollar sign, texts between double quotes. -/
def raw : Lexeme → List Char
  | .var identifier => '$' :: identifier.chars
  | .string text => '"' :: (escaped text.toList ++ ['"'])
  | lexeme => lexeme.text.toList

/-- Whether a lexeme is over where the given text goes on. -/
def endsBefore (rest : List Char) : Lexeme → Bool
  | .name _ | .var _ | .number _ => rest.head?.all wordEnds.contains
  | .sign .minus => rest.head?.all fun c => c != '-' && c != '>' && c != '='
  | _ => true

/-- The token of a lexeme, wherever it stands. -/
def reading (lexeme : Lexeme) : Reading := { kind := lexeme.kind, text := lexeme.text.toList }

end Lexeme

/-- Lexemes one after the other, with a blank between two of them that would be read as one. -/
def spaced : List Lexeme → List Char
  | [] => []
  | lexeme :: rest =>
    lexeme.raw ++ if lexeme.endsBefore (spaced rest) then spaced rest else ' ' :: spaced rest

/-! ### Doc comments, signs and blanks -/

theorem blockCommentLength_append {front : List Char} (open_ : ¬['*', '/'] <:+: front)
    (rest : List Char) : blockCommentLength (front ++ '*' :: '/' :: rest) = front.length + 2 := by
  induction front with
  | nil => rfl
  | cons c front ih =>
    have further := ih fun inside => open_ (inside.trans (List.suffix_cons c front).isInfix)
    rw [List.cons_append, blockCommentLength, further, List.length_cons]
    rintro behind rfl same
    cases front with
    | nil => cases same
    | cons d front =>
      obtain ⟨rfl, -⟩ := List.cons.inj same
      exact open_ ⟨[], front, rfl⟩

theorem DocBody.scanPhp_append (doc : DocBody) (rest : List Char) :
    scanPhp (doc.text.toList ++ rest) =
      .ok ⟨doc.text.toList.length, some { kind := .docComment, text := doc.text.toList }, .php⟩ := by
  have length := blockCommentLength_append doc.open_ rest
  simp only [List.cons_append] at length
  simp [DocBody.text, scanPhp, length]
  rw [show doc.chars ++ '*' :: '/' :: rest = doc.chars ++ ['*', '/'] ++ rest by simp]
  exact List.take_left' (by simp)

theorem operatorAt?_minus {rest : List Char} (ends : (Lexeme.sign .minus).endsBefore rest = true) :
    operatorAt? ('-' :: rest) = some "-" := by
  cases rest with
  | nil => rfl
  | cons c rest =>
    simp only [Lexeme.endsBefore, List.head?_cons, Option.all_some, Bool.and_eq_true, bne_iff_ne] at ends
    obtain ⟨⟨noMinus, noGreater⟩, noEqual⟩ := ends
    have others : ('-' == c) = false ∧ ('>' == c) = false ∧ ('=' == c) = false := by
      simp [Ne.symm noMinus, Ne.symm noGreater, Ne.symm noEqual]
    simp [operatorAt?, operators, List.find?, List.isPrefixOf, others]

theorem Punctuator.scanPhp_append (mark : Punctuator) {rest : List Char}
    (ends : (Lexeme.sign mark).endsBefore rest = true) :
    scanPhp (mark.text.toList ++ rest) =
      .ok ⟨mark.text.toList.length, some { kind := mark.kind, text := mark.text.toList }, .php⟩ := by
  cases mark
  case minus =>
    have found := operatorAt?_minus ends
    rw [show Punctuator.minus.text.toList ++ rest = '-' :: rest from rfl, scanPhp_plain _ (by decide) (by decide)]
    simp only [scanPlain, variableLength?_eq_none _ (show '-' ≠ '$' by decide),
      numberLength?_eq_none _ (show isDecimal '-' = false by decide) (show '-' ≠ '.' by decide), found]
    rfl
  all_goals rfl

/-- What the lexer makes of a lexeme that is over. -/
theorem Lexeme.scanPhp_append (lexeme : Lexeme) {rest : List Char}
    (ends : lexeme.endsBefore rest = true) :
    scanPhp (lexeme.raw ++ rest) = .ok ⟨lexeme.raw.length, some lexeme.reading, .php⟩ := by
  have stops (word : rest.head?.all wordEnds.contains = true) : ∀ c ∈ rest.head?, c ∈ wordEnds := by
    intro c first
    rw [Option.mem_def.mp first] at word
    simpa using word
  cases lexeme with
  | name path => simpa [raw, reading, text, kind, NamePath.text] using path.scanPhp_append (stops ends)
  | var identifier =>
    simpa [raw, reading, text, kind, Identifier.text] using identifier.scanPhp_append (stops ends)
  | number numeral =>
    simpa [raw, reading, text, kind, Numeral.text] using numeral.scanPhp_append (stops ends)
  | string text => simpa [raw, reading, Lexeme.text, kind] using scanPhp_escaped text.toList rest
  | doc body => exact body.scanPhp_append rest
  | sign mark => exact mark.scanPhp_append ends

theorem Lexeme.exists_raw_eq_cons (lexeme : Lexeme) :
    ∃ c rest, lexeme.raw = c :: rest ∧ isBlank c = false := by
  cases lexeme with
  | name path =>
    obtain ⟨c, rest, start, rfl | ⟨word, -⟩⟩ := path.exists_chars_eq_cons
    · exact ⟨'\\', rest, by simp [raw, text, NamePath.text, start], by decide⟩
    · exact ⟨c, rest, by simp [raw, text, NamePath.text, start], isBlank_of_isAsciiWord word⟩
  | var identifier => exact ⟨'$', _, rfl, by decide⟩
  | number numeral =>
    obtain ⟨c, rest, start, digit⟩ := numeral.exists_chars_eq_cons
    have word : isAsciiWord c = true := by simp [isAsciiWord, Char.isAlphanum, digit]
    exact ⟨c, rest, by simp [raw, text, Numeral.text, start], isBlank_of_isAsciiWord word⟩
  | string text => exact ⟨'"', _, rfl, by decide⟩
  | doc body =>
    exact ⟨'/', '*' :: '*' :: (body.chars ++ ['*', '/']), by simp [raw, text, DocBody.text], by decide⟩
  | sign mark => cases mark <;> exact ⟨_, _, rfl, by decide⟩

/-- A blank ends whatever stands before it. -/
theorem Lexeme.endsBefore_blank (lexeme : Lexeme) (rest : List Char) :
    lexeme.endsBefore (' ' :: rest) = true := by
  cases lexeme with
  | sign mark => cases mark <;> rfl
  | _ => rfl

theorem scanPhp_blank {rest : List Char} (dark : ∀ c ∈ rest.head?, isBlank c = false) :
    scanPhp (' ' :: rest) = .ok ⟨1, none, .php⟩ := by
  have none_ : rest.takeWhile isBlank = [] := by
    cases rest with
    | nil => rfl
    | cons c rest => simp [dark c rfl]
  simp [scanPhp, show isBlank ' ' = true by decide, none_]

theorem isBlank_head_spaced (lexemes : List Lexeme) :
    ∀ c ∈ (spaced lexemes).head?, isBlank c = false := by
  cases lexemes with
  | nil => exact nofun
  | cons lexeme rest =>
    obtain ⟨c, others, start, dark⟩ := lexeme.exists_raw_eq_cons
    intro d first
    obtain rfl : c = d := by simpa [spaced, start] using first
    exact dark

/-- One step of the lexer. -/
theorem piecesFrom_append {mode : SourceMode} {raw rest : List Char} {reading : Option Reading}
    {next : SourceMode} {pieces : List Piece} (some_ : raw ≠ [])
    (scanned : scan mode (raw ++ rest) = .ok ⟨raw.length, reading, next⟩)
    (others : piecesFrom next rest = .ok pieces) :
    piecesFrom mode (raw ++ rest) = .ok (⟨raw, reading⟩ :: pieces) := by
  cases raw with
  | nil => exact absurd rfl some_
  | cons c raw =>
    rw [List.cons_append] at scanned ⊢
    rw [piecesFrom, scanned]
    simp [others]

/-- What is written lexeme by lexeme is read lexeme by lexeme. -/
theorem exists_piecesFrom_spaced (lexemes : List Lexeme) :
    ∃ pieces, piecesFrom .php (spaced lexemes) = .ok pieces ∧
      pieces.filterMap Piece.reading = lexemes.map Lexeme.reading := by
  induction lexemes with
  | nil => exact ⟨[], by simp [spaced, piecesFrom], rfl⟩
  | cons lexeme rest ih =>
    obtain ⟨pieces, read, readings⟩ := ih
    have filled : lexeme.raw ≠ [] := by
      obtain ⟨c, others, start, -⟩ := lexeme.exists_raw_eq_cons
      simp [start]
    cases ends : lexeme.endsBefore (spaced rest) with
    | true =>
      refine ⟨⟨lexeme.raw, some lexeme.reading⟩ :: pieces, ?_, by simp [readings]⟩
      simp only [spaced, ends, if_true]
      exact piecesFrom_append filled (lexeme.scanPhp_append ends) read
    | false =>
      have blank : piecesFrom .php ([' '] ++ spaced rest) = .ok (⟨[' '], none⟩ :: pieces) :=
        piecesFrom_append (by simp) (scanPhp_blank (isBlank_head_spaced rest)) read
      refine ⟨⟨lexeme.raw, some lexeme.reading⟩ :: ⟨[' '], none⟩ :: pieces, ?_, by simp [readings]⟩
      simp only [spaced, ends, Bool.false_eq_true, if_false]
      exact piecesFrom_append filled (lexeme.scanPhp_append (lexeme.endsBefore_blank _)) blank

/-! ### Tokens -/

/-- The token of a lexeme in a source. -/
def Lexeme.token (lexeme : Lexeme) (raw : String) (line : Nat) : Token :=
  { kind := lexeme.kind, text := lexeme.text, raw, line, interpolated := false }

/-- Tokens stand for lexemes one by one, on whatever lines. -/
inductive Stands : List Lexeme → List Token → Prop
  | nil : Stands [] []
  | cons {lexeme : Lexeme} {lexemes : List Lexeme} {tokens : List Token} (raw : String) (line : Nat) :
    Stands lexemes tokens → Stands (lexeme :: lexemes) (lexeme.token raw line :: tokens)

theorem Stands.exists_cons {lexeme : Lexeme} {lexemes : List Lexeme} {tokens : List Token}
    (stands : Stands (lexeme :: lexemes) tokens) :
    ∃ raw line behind, tokens = lexeme.token raw line :: behind ∧ Stands lexemes behind := by
  cases stands with
  | cons raw line stands => exact ⟨raw, line, _, rfl, stands⟩

theorem Stands.exists_singleton {lexeme : Lexeme} {tokens : List Token} (stands : Stands [lexeme] tokens) :
    ∃ raw line, tokens = [lexeme.token raw line] := by
  cases stands with
  | cons raw line stands =>
    cases stands
    exact ⟨raw, line, rfl⟩

theorem Stands.exists_append {first second : List Lexeme} {tokens : List Token}
    (stands : Stands (first ++ second) tokens) :
    ∃ front back, tokens = front ++ back ∧ Stands first front ∧ Stands second back := by
  induction first generalizing tokens with
  | nil => exact ⟨[], tokens, rfl, .nil, stands⟩
  | cons lexeme first ih =>
    cases stands with
    | cons raw line stands =>
      obtain ⟨front, back, rfl, atFirst, atSecond⟩ := ih stands
      exact ⟨_ :: front, back, rfl, .cons raw line atFirst, atSecond⟩

theorem stands_tokensFrom (line : Nat) {lexemes : List Lexeme} {pieces : List Piece}
    (readings : pieces.filterMap Piece.reading = lexemes.map Lexeme.reading) :
    Stands lexemes (tokensFrom line pieces) := by
  induction pieces generalizing line lexemes with
  | nil =>
    obtain rfl : lexemes = [] := by simpa using readings.symm
    exact .nil
  | cons piece pieces ih =>
    unfold tokensFrom
    cases read : piece.reading with
    | none =>
      rw [List.filterMap_cons_none read] at readings
      exact ih _ readings
    | some reading =>
      rw [List.filterMap_cons_some read] at readings
      cases lexemes with
      | nil => cases readings
      | cons lexeme lexemes =>
        obtain ⟨rfl, behind⟩ := List.cons.inj readings
        have same : String.ofList lexeme.reading.text = lexeme.text := String.ofList_toList
        simp only [same]
        exact .cons (String.ofList piece.raw) line (ih _ behind)

theorem openTagLength?_php (rest : List Char) :
    openTagLength? ('<' :: '?' :: 'p' :: 'h' :: 'p' :: ' ' :: rest) = some 5 := by
  have noWord : isWord ' ' = false := by decide
  simp only [openTagLength?, List.take_succ_cons, List.take_zero, List.drop_succ_cons, List.drop_zero,
    List.head?_cons, Option.any_some, noWord]
  rfl

/-- The pieces of the opening tag and of the blank behind it. -/
def openingPieces : List Piece :=
  [⟨['<', '?', 'p', 'h', 'p'], some { kind := .openTag, text := ['<', '?', 'p', 'h', 'p'] }⟩, ⟨[' '], none⟩]

/-- Code behind an opening tag and a blank is read as it is read alone. -/
theorem piecesFrom_openTag {text : List Char} {pieces : List Piece}
    (dark : ∀ c ∈ text.head?, isBlank c = false) (read : piecesFrom .php text = .ok pieces) :
    piecesFrom .html (['<', '?', 'p', 'h', 'p'] ++ ([' '] ++ text)) = .ok (openingPieces ++ pieces) := by
  have blank : piecesFrom .php ([' '] ++ text) = .ok (⟨[' '], none⟩ :: pieces) :=
    piecesFrom_append (by simp) (scanPhp_blank dark) read
  have opened : scan .html (['<', '?', 'p', 'h', 'p'] ++ ([' '] ++ text)) =
      .ok ⟨5, some { kind := .openTag, text := ['<', '?', 'p', 'h', 'p'] }, .php⟩ := by
    simp [scan, scanHtml, openTagLength?_php, Scan.verbatim]
  exact piecesFrom_append (by simp) opened blank

/-- A source that is written lexeme by lexeme, behind an opening tag. -/
def phpSource (lexemes : List Lexeme) : String :=
  String.ofList (['<', '?', 'p', 'h', 'p'] ++ ([' '] ++ spaced lexemes))

theorem exists_sourceTokens_phpSource (lexemes : List Lexeme) :
    ∃ tag tokens, sourceTokens (phpSource lexemes) = .ok (tag :: tokens) ∧ tag.kind = .openTag ∧
      Stands lexemes tokens := by
  obtain ⟨pieces, read, readings⟩ := exists_piecesFrom_spaced lexemes
  rw [sourceTokens, sourcePieces, phpSource, String.toList_ofList,
    piecesFrom_openTag (isBlank_head_spaced lexemes) read]
  exact ⟨_, _, rfl, rfl, stands_tokensFrom _ readings⟩

end FormHarvest
