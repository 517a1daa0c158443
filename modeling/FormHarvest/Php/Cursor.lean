import FormHarvest.Php.Operators

namespace FormHarvest

/-- Brackets, calls or operators are nested deeper than can be read. `line` is where the reader
stood. -/
structure NestingFault where
  line : Nat
deriving DecidableEq

/-- Where the parser stands: the tokens that are left, the last doc comment that nothing has taken
yet, how many tokens lie behind, and how many of them were skipped as unreadable. -/
structure Cursor where
  rest : List Token
  pendingDoc : Option String := none
  position : Nat := 0
  skipped : Nat := 0

/-- What reads tokens. -/
abbrev Parse := StateT Cursor (Except NestingFault)

/-- Whether a token is the given sign. -/
def isSign (token : Option Token) (text : String) : Bool :=
  token.any fun t => (t.kind == .punctuation || t.kind == .operator) && t.text == text

/-- Whether a token is one of the given words, in any case of letters. -/
def isWordIn (token : Option Token) (words : List String) : Bool :=
  token.any fun t => t.kind == .name && words.contains (lowercase t.text)

def isKind (token : Option Token) (kind : TokenKind) : Bool := token.any (·.kind == kind)

namespace Cursor

/-- Doc comments at the front become the pending one, the last of them. -/
def settleFrom (pendingDoc : Option String) (position : Nat) :
    List Token → Option String × Nat × List Token
  | [] => (pendingDoc, position, [])
  | token :: rest =>
    if token.kind == .docComment then settleFrom (some token.text) (position + 1) rest
    else (pendingDoc, position, token :: rest)

def settle (cursor : Cursor) : Cursor :=
  let (pendingDoc, position, rest) := settleFrom cursor.pendingDoc cursor.position cursor.rest
  { cursor with pendingDoc, position, rest }

/-- The n-th token from here that is no doc comment, counted from zero. -/
def ahead? : Nat → List Token → Option Token
  | _, [] => none
  | n, token :: rest =>
    if token.kind == .docComment then ahead? n rest
    else
      match n with
      | 0 => some token
      | n + 1 => ahead? n rest

/-- Whether a doc comment before this token belongs to nothing after it. -/
def isDocBarrier (token : Token) : Bool :=
  (token.kind == .punctuation && commentStopSigns.contains token.text)
    || (token.kind == .name && commentStopWords.contains (lowercase token.text))

/-- Takes the next token. -/
def advance (cursor : Cursor) : Option Token × Cursor :=
  let settled := cursor.settle
  match settled.rest with
  | [] => (none, settled)
  | token :: rest =>
    (some token, { settled with
      rest
      position := settled.position + 1
      pendingDoc := if isDocBarrier token then none else settled.pendingDoc })

end Cursor

namespace Parse

/-- The next token, counted from one, doc comments apart. -/
def peek (n : Nat := 1) : Parse (Option Token) := fun cursor =>
  let settled := cursor.settle
  .ok (Cursor.ahead? (n - 1) settled.rest, settled)

def advance : Parse (Option Token) := fun cursor => .ok cursor.advance

/-- Passes over a token that cannot be read here. -/
def skip : Parse Unit := fun cursor =>
  match cursor.advance with
  | (none, after) => .ok ((), after)
  | (some _, after) => .ok ((), { after with skipped := after.skipped + 1 })

/-- The pending doc comment, which is pending no longer. -/
def takeDoc : Parse (Option String) := fun cursor =>
  let settled := cursor.settle
  .ok (settled.pendingDoc, { settled with pendingDoc := none })

def setDoc (doc : Option String) : Parse Unit := fun cursor =>
  .ok ((), { cursor with pendingDoc := doc })

def position : Parse Nat := fun cursor => .ok (cursor.position, cursor)

/-- Takes the next token if it is the given sign. -/
def takeSign (text : String) : Parse Bool := do
  if isSign (← peek) text then
    let _ ← advance
    return true
  else return false

/-- Gives up because of nesting, at the line of the next token. -/
def tooDeep {α : Type} : Parse α := fun cursor =>
  .error ⟨((Cursor.ahead? 0 cursor.settle.rest).map (·.line)).getD 0⟩

/-- Repeats a step as long as it asks for more, at most `rounds` times. -/
def repeatStep {α : Type} (step : α → Parse (α × Bool)) : Nat → α → Parse α
  | 0, value => pure value
  | rounds + 1, value => do
    let (value, more) ← step value
    if more then repeatStep step rounds value else pure value

end Parse

end FormHarvest
