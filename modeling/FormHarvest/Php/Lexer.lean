import FormHarvest.Php.Quotation
import FormHarvest.Php.Token
import FormHarvest.Text.Word

namespace FormHarvest

/-- ASCII letters and the four characters that differ from one of them only in case. -/
def isLetterLike (c : Char) : Bool :=
  c.isAlpha || c == '\u0130' || c == '\u0131' || c == '\u017F' || c == '\u212A'

/-- The length of an opening tag at the start of a text. -/
def openTagLength? : List Char → Option Nat
  | '<' :: '?' :: rest =>
    let word := (rest.take 3).map Char.toLower
    if word == ['p', 'h', 'p'] && !(rest.drop 3).head?.any isWord then some 5
    else if rest.head? == some '=' then some 3
    else if rest.head?.any isLetterLike then none
    else some 2
  | _ => none

/-- How many characters stand before the next opening tag. -/
def htmlLength : List Char → Nat
  | [] => 0
  | c :: rest => if (openTagLength? (c :: rest)).isSome then 0 else htmlLength rest + 1

/-- Characters above ASCII that stand in names; those beyond 16 bits start no name. -/
def isHighNameChar (c : Char) : Bool := 0x80 ≤ c.toNat && c.toNat ≤ 0xFFFF

def isNameStart (c : Char) : Bool := c.isAlpha || c == '_' || isHighNameChar c

def isNamePart (c : Char) : Bool := isWord c || isHighNameChar c

/-- The length of a name without backslashes at the start of a text. -/
def segmentLength? : List Char → Option Nat
  | [] => none
  | c :: rest => if isNameStart c then some ((rest.takeWhile isNamePart).length + 1) else none

/-- The length of the further segments of a name, each after a backslash. -/
def segmentsLength : List Char → Nat
  | '\\' :: rest =>
    match segmentLength? rest with
    | some n => n + 1 + segmentsLength (rest.drop n)
    | none => 0
  | _ => 0
termination_by text => text.length
decreasing_by simp only [List.length_drop, List.length_cons]; omega

/-- The length of a name with its namespace. -/
def nameLength? (text : List Char) : Option Nat :=
  let lead := if text.head? == some '\\' then 1 else 0
  (segmentLength? (text.drop lead)).map fun n => lead + n + segmentsLength (text.drop (lead + n))

/-- The length of a variable. -/
def variableLength? : List Char → Option Nat
  | '$' :: rest => (segmentLength? rest).map (· + 1)
  | _ => none

/-- The length of a run of digits with underscores, which starts with a digit. -/
def digitRunLength : List Char → Nat
  | [] => 0
  | c :: rest =>
    if isDecimal c then (rest.takeWhile fun d => isDecimal d || d == '_').length + 1 else 0

/-- The length of an exponent, zero when there is none. -/
def exponentLength : List Char → Nat
  | e :: rest =>
    let sign := if rest.head? == some '+' || rest.head? == some '-' then 1 else 0
    let digits := ((rest.drop sign).takeWhile isDecimal).length
    if (e == 'e' || e == 'E') && 0 < digits then sign + digits + 1 else 0
  | [] => 0

/-- The length of a whole number in base sixteen, two or eight, zero when there is none. -/
def markedNumberLength : List Char → Nat
  | '0' :: mark :: rest =>
    let digits :=
      if mark == 'x' || mark == 'X' then (rest.takeWhile fun c => isHex c || c == '_').length
      else if mark == 'b' || mark == 'B' then
        (rest.takeWhile fun c => c == '0' || c == '1' || c == '_').length
      else if mark == 'o' || mark == 'O' then (rest.takeWhile fun c => isOctal c || c == '_').length
      else 0
    if 0 < digits then digits + 2 else 0
  | _ => 0

/-- The length of a number: in a marked base, with digits after the point, or with digits before an
optional point. -/
def numberLength? (text : List Char) : Option Nat :=
  let marked := markedNumberLength text
  let whole := digitRunLength text
  let point := if (text.drop whole).head? == some '.' then 1 else 0
  let fraction := if point = 1 then digitRunLength (text.drop (whole + 1)) else 0
  let length := whole + point + fraction
  if 0 < marked then some marked
  else if whole = 0 && fraction = 0 then none
  else some (length + exponentLength (text.drop length))

/-- The operators, longer ones first. -/
def operators : List String := [
  "<<=", ">>=", "**=", "...", "<=>", "===", "!==", "??=", "?->",
  "::", "->", "=>", "++", "--", "==", "!=", "<>", "<=", ">=", "&&", "||",
  "??", "+=", "-=", "*=", "/=", ".=", "%=", "&=", "|=", "^=", "<<", ">>", "**",
  "+", "-", "*", "/", "%", "=", "<", ">", "!", ".", "&", "|", "^", "~", "?", ":", "@"]

/-- The operator at the start of a text, the longest one. -/
def operatorAt? (text : List Char) : Option String :=
  operators.find? fun op => op.toList.isPrefixOf text

def isPunctuation (c : Char) : Bool := "()[]\x7b\x7d,;#".toList.contains c

/-- How many characters a quoted text takes after its opening quote, the closing one included. A
backslash takes the character after it along; without a closing quote the text goes on to the
end. -/
def quotedLength (quote : Char) : List Char → Nat
  | [] => 0
  | '\\' :: _ :: rest => quotedLength quote rest + 2
  | c :: rest => if c == quote then 1 else quotedLength quote rest + 1

/-- How many characters a block comment takes after its opening mark. -/
def blockCommentLength : List Char → Nat
  | [] => 0
  | '*' :: '/' :: _ => 2
  | _ :: rest => blockCommentLength rest + 1

/-- How many characters stand before the end of the line or a closing tag. -/
def lineCommentLength : List Char → Nat
  | [] => 0
  | '\n' :: _ => 0
  | '?' :: '>' :: _ => 0
  | _ :: rest => lineCommentLength rest + 1

def isSpaceOrTab (c : Char) : Bool := c == ' ' || c == '\t'

/-- The start of a block text: its quote, its label, and the length of the line. -/
structure BlockStart where
  quote : Option Char
  label : List Char
  length : Nat

/-- The start of a block text: three angle brackets, a label that may be quoted, a line end. -/
def blockStart? (text : List Char) : Option BlockStart :=
  if ['<', '<', '<'].isPrefixOf text then
    let spaces := ((text.drop 3).takeWhile isSpaceOrTab).length
    let atQuote := text.drop (3 + spaces)
    let quote := atQuote.head?.filter fun c => c == '"' || c == '\''
    let width := if quote.isSome then 1 else 0
    let atLabel := atQuote.drop width
    match atLabel with
    | c :: rest =>
      if c.isAlpha || c == '_' then
        let label := c :: rest.takeWhile isWord
        let afterLabel := atLabel.drop label.length
        if quote.isSome && afterLabel.head? != quote then none
        else
          let length := 3 + spaces + width + label.length + width
          match afterLabel.drop width with
          | '\n' :: _ => some ⟨quote, label, length + 1⟩
          | '\r' :: '\n' :: _ => some ⟨quote, label, length + 2⟩
          | _ => none
      else none
    | [] => none
  else none

/-- The indentation of the closing label when a line starts with one. -/
def closingIndent? (label line : List Char) : Option (List Char) :=
  let indent := line.takeWhile isSpaceOrTab
  let atLabel := line.drop indent.length
  if label.isPrefixOf atLabel && !(atLabel.drop label.length).head?.any isWord then some indent
  else none

/-- What stands before the closing label of a block text, and the indentation of that label. -/
def beforeClosing? (label : List Char) : (lineStart : Bool) → List Char →
    Option (List Char × List Char)
  | _, [] => none
  | lineStart, c :: rest =>
    match if lineStart then closingIndent? label (c :: rest) else none with
    | some indent => some ([], indent)
    | none => (beforeClosing? label (c == '\n') rest).map fun (body, indent) => (c :: body, indent)

/-- A text without the line end that closes it. -/
def dropLastLineEnd (text : List Char) : List Char :=
  match text.reverse with
  | '\n' :: '\r' :: rest => rest.reverse
  | '\n' :: rest => rest.reverse
  | _ => text

/-- A line without the indentation; a line that is indented otherwise loses its leading spaces and
tabs. -/
def unindentedLine (indent line : List Char) : List Char :=
  if indent.isPrefixOf line then line.drop indent.length else line.dropWhile isSpaceOrTab

def unindented (indent body : List Char) : List Char :=
  if indent.isEmpty then body
  else joinWith ['\n'] ((piecesAt '\n' body).map (unindentedLine indent))

/-- The body of a block text without its indentation, and the length of the whole text. Without a
closing label it goes on to the end. -/
def blockText (start : BlockStart) (text : List Char) : List Char × Nat :=
  let after := text.drop start.length
  match beforeClosing? start.label true after with
  | some (body, indent) =>
    (unindented indent (dropLastLineEnd body),
     start.length + body.length + indent.length + start.label.length)
  | none => (after, text.length)

/-- Whether PHP code or the page around it is being read. -/
inductive SourceMode where
  | html
  | php
deriving DecidableEq

/-- What a piece of source means as a token. -/
structure Reading where
  kind : TokenKind
  text : List Char
  interpolated : Bool := false

/-- A step of the lexer: how many characters the next piece takes, what it means, if it is a token,
and the mode after it. -/
structure Scan where
  length : Nat
  reading : Option Reading
  mode : SourceMode

/-- A token that means what is written. -/
def Scan.verbatim (kind : TokenKind) (length : Nat) (text : List Char) : Scan :=
  ⟨length, some { kind, text := text.take length }, .php⟩

/-- A token for a text in double quotes or in a block that is read like one. -/
def Scan.doubleQuoted (length : Nat) (body : List Char) : Except EscapeFault Scan :=
  (doubleQuotedValue body).map fun value =>
    ⟨length, some { kind := .string, text := value, interpolated := interpolates body }, .php⟩

/-- The next piece of the page around the code. -/
def scanHtml (text : List Char) : Scan :=
  match openTagLength? text with
  | some n => Scan.verbatim .openTag n text
  | none =>
    let n := htmlLength text
    ⟨n, some { kind := .inlineHtml, text := text.take n }, .html⟩

/-- The next piece of a text without blanks, comments, strings or a closing tag at its start. -/
def scanPlain (text : List Char) : Scan :=
  match variableLength? text with
  | some n => ⟨n, some { kind := .variable, text := (text.take n).drop 1 }, .php⟩
  | none =>
    match numberLength? text with
    | some n => Scan.verbatim .number n text
    | none =>
      match nameLength? text with
      | some n => Scan.verbatim .name n text
      | none =>
        if ['#', '['].isPrefixOf text then Scan.verbatim .punctuation 2 text
        else
          match operatorAt? text with
          | some op => Scan.verbatim .operator op.length text
          | none =>
            if text.head?.any isPunctuation then Scan.verbatim .punctuation 1 text
            else Scan.verbatim .unknown 1 text

/-- The quoted text at the start of a text, without its quotes. An unclosed one loses its last
character in place of the closing quote. -/
def quotedBody (length : Nat) (text : List Char) : List Char := ((text.take length).drop 1).dropLast

/-- The next piece of PHP code. -/
def scanPhp (text : List Char) : Except EscapeFault Scan :=
  match text with
  | [] => .ok ⟨0, none, .php⟩
  | '?' :: '>' :: _ => .ok ⟨2, some { kind := .closeTag, text := ['?', '>'] }, .html⟩
  | '/' :: '*' :: rest =>
    let n := blockCommentLength rest + 2
    let isDoc := rest.head? == some '*' && 4 < n
    .ok ⟨n, if isDoc then some { kind := .docComment, text := text.take n } else none, .php⟩
  | '\'' :: rest =>
    let n := quotedLength '\'' rest + 1
    .ok ⟨n, some { kind := .string, text := singleQuotedValue (quotedBody n text) }, .php⟩
  | '"' :: rest =>
    let n := quotedLength '"' rest + 1
    Scan.doubleQuoted n (quotedBody n text)
  | '\x60' :: rest =>
    let n := quotedLength '\x60' rest + 1
    .ok ⟨n, some { kind := .string, text := quotedBody n text, interpolated := true }, .php⟩
  | c :: rest =>
    if isBlank c then .ok ⟨(rest.takeWhile isBlank).length + 1, none, .php⟩
    else if (c == '#' && rest.head? != some '[') || ['/', '/'].isPrefixOf text then
      .ok ⟨lineCommentLength text, none, .php⟩
    else
      match blockStart? text with
      | some start =>
        let (body, n) := blockText start text
        if start.quote == some '\'' then .ok ⟨n, some { kind := .string, text := body }, .php⟩
        else Scan.doubleQuoted n body
      | none => .ok (scanPlain text)

/-- The next piece of a source. -/
def scan : SourceMode → List Char → Except EscapeFault Scan
  | .html, text => .ok (scanHtml text)
  | .php, text => scanPhp text

/-- A piece of source as written and what it means. Blanks and comments mean nothing. -/
structure Piece where
  raw : List Char
  reading : Option Reading

/-- The pieces of a source, from the given mode on. Every piece takes at least one character. -/
def piecesFrom (mode : SourceMode) (text : List Char) : Except EscapeFault (List Piece) :=
  match text with
  | [] => .ok []
  | c :: rest =>
    match scan mode (c :: rest) with
    | .error fault => .error fault
    | .ok found =>
      let raw := c :: rest.take (found.length - 1)
      match piecesFrom found.mode (rest.drop (found.length - 1)) with
      | .error fault => .error fault
      | .ok pieces => .ok (⟨raw, found.reading⟩ :: pieces)
termination_by text.length
decreasing_by simp only [List.length_drop, List.length_cons]; omega

/-- The pieces of a source, which starts outside PHP code. -/
def sourcePieces (text : List Char) : Except EscapeFault (List Piece) := piecesFrom .html text

/-- The tokens of pieces that start on a line. -/
def tokensFrom (line : Nat) : List Piece → List Token
  | [] => []
  | piece :: rest =>
    let others := tokensFrom (line + piece.raw.count '\n') rest
    match piece.reading with
    | none => others
    | some reading =>
      { kind := reading.kind
        text := String.ofList reading.text
        raw := String.ofList piece.raw
        line
        interpolated := reading.interpolated } :: others

/-- The tokens of a source. -/
def sourceTokens (source : String) : Except EscapeFault (List Token) :=
  (sourcePieces source.toList).map (tokensFrom 1)

/-- Nothing of a source is lost between its pieces. -/
theorem flatMap_raw_piecesFrom {mode : SourceMode} {text : List Char} {pieces : List Piece}
    (read : piecesFrom mode text = .ok pieces) : pieces.flatMap (·.raw) = text := by
  fun_induction piecesFrom mode text generalizing pieces with
  | case1 => cases read; rfl
  | case2 => cases read
  | case3 => cases read
  | case4 mode c rest found scanned raw further others =>
    rename_i ih
    cases read
    simp [List.flatMap_cons, ih others, raw]

end FormHarvest
