import FormHarvest.Decimal.Numeral
import FormHarvest.Php.Node
import FormHarvest.Php.Token

namespace FormHarvest

/-- The sign that opens a block. -/
def openBrace : String := "\x7b"

/-- The sign that closes a block. -/
def closeBrace : String := "\x7d"

/-- The name of a member whose name is computed inside braces. -/
def computedMember : String := openBrace ++ closeBrace

/-- How tightly assignments bind. -/
def assignmentPrecedence : Nat := 4

/-- How tightly the two-way choice binds. -/
def ternaryPrecedence : Nat := 5

def assignmentOperators : List String := [
  "=", "+=", "-=", "*=", "/=", ".=", "%=", "**=", "??=", "&=", "|=", "^=", "<<=", ">>="]

/-- How tightly an operator between two operands binds, and whether it groups to the right. -/
structure Binding where
  precedence : Nat
  rightAssociative : Bool := false

/-- The bindings of the operators that are written with signs. -/
def signBindings : List (String × Binding) := [
  ("??", ⟨6, true⟩), ("||", ⟨7, false⟩), ("&&", ⟨8, false⟩), ("|", ⟨9, false⟩), ("^", ⟨10, false⟩),
  ("&", ⟨11, false⟩), ("==", ⟨12, false⟩), ("!=", ⟨12, false⟩), ("===", ⟨12, false⟩),
  ("!==", ⟨12, false⟩), ("<>", ⟨12, false⟩), ("<=>", ⟨12, false⟩), ("<", ⟨13, false⟩),
  ("<=", ⟨13, false⟩), (">", ⟨13, false⟩), (">=", ⟨13, false⟩), (".", ⟨14, false⟩),
  ("<<", ⟨15, false⟩), (">>", ⟨15, false⟩), ("+", ⟨16, false⟩), ("-", ⟨16, false⟩),
  ("*", ⟨17, false⟩), ("/", ⟨17, false⟩), ("%", ⟨17, false⟩), ("**", ⟨20, true⟩)]

/-- The bindings of the operators that are words. -/
def wordBindings : List (String × Binding) := [
  ("or", ⟨1, false⟩), ("xor", ⟨2, false⟩), ("and", ⟨3, false⟩), ("instanceof", ⟨18, false⟩)]

/-- The operator between operands that a token stands for, by its name in small letters. -/
def binaryOperator? (token : Token) : Option (String × Binding) :=
  match token.kind with
  | .operator => (signBindings ++ wordBindings).find? fun b => b.1 == token.text
  | .name => wordBindings.find? fun b => b.1 == lowercase token.text
  | _ => none

def unaryOperators : List String := ["!", "-", "+", "~", "@"]

def castNames : List String := [
  "int", "integer", "float", "double", "real", "string", "bool", "boolean", "array", "object",
  "unset", "binary"]

def modifiers : List String := [
  "public", "private", "protected", "abstract", "final", "var", "readonly"]

def classWords : List String := ["class", "interface", "trait", "enum"]

/-- Words after which a statement goes on like any other. -/
def openingWords : List String := [
  "if", "elseif", "else", "while", "do", "for", "foreach", "switch", "try", "catch", "finally",
  "return", "echo", "print", "throw", "global", "break", "continue", "goto", "endif", "endwhile",
  "endfor", "endforeach", "endswitch", "enddeclare", "declare"]

/-- Words that take the expression after them as their operand. -/
def operandWords : List String := [
  "clone", "print", "yield", "throw", "include", "include_once", "require", "require_once"]

/-- Signs after which an earlier doc comment belongs to nothing. -/
def commentStopSigns : List String := [openBrace, closeBrace, ";"]

/-- Words after which an earlier doc comment belongs to nothing. -/
def commentStopWords : List String :=
  modifiers ++ classWords ++ ["function", "const", "namespace", "use"]

/-- The value of a number as it is written: in base sixteen, two or eight by its mark, a fraction
with a point or an exponent, in base eight after a zero, otherwise in base ten. What cannot be read
counts as zero. -/
def numberValue (raw : String) : NumberValue :=
  let text := raw.toList.filter (· != '_')
  match text with
  | '0' :: mark :: rest =>
    if mark == 'x' || mark == 'X' then .whole ((readDigits? 16 rest).getD 0)
    else if mark == 'b' || mark == 'B' then .whole ((readDigits? 2 rest).getD 0)
    else if mark == 'o' || mark == 'O' then .whole ((readDigits? 8 rest).getD 0)
    else if text.any fun c => c == '.' || c == 'e' || c == 'E' then
      .fraction ((readFraction? text).getD (Double.ofRatio false 0 1))
    else .whole ((readDigits? 8 text).getD 0)
  | _ =>
    if text.any fun c => c == '.' || c == 'e' || c == 'E' then
      .fraction ((readFraction? text).getD (Double.ofRatio false 0 1))
    else .whole ((readDecimal? text).getD 0)

end FormHarvest
