import FormHarvest.Php.Lexer

namespace FormHarvest

/-- The tokens of a source, read one after the other. `current` is the token read last. -/
structure TokenStream where
  tokens : List Token
  position : Nat := 0
  current : Option Token := none

namespace TokenStream

/-- The n-th token from here, counted from one, without reading it. -/
def peek? (stream : TokenStream) (n : Int) : Option Token :=
  let at_ : Int := stream.position + (n - 1)
  if 0 ≤ at_ then stream.tokens[at_.toNat]? else none

/-- Reads one token. At the end nothing changes. -/
def next (stream : TokenStream) : Option Token × TokenStream :=
  match stream.tokens[stream.position]? with
  | none => (none, stream)
  | some token => (some token, { stream with position := stream.position + 1, current := some token })

/-- The tokens that are left. -/
def remaining (stream : TokenStream) : List Token := stream.tokens.drop stream.position

/-- Reads all tokens that are left. -/
def readAll (stream : TokenStream) : List Token × TokenStream :=
  let left := stream.remaining
  (left, { stream with
    position := stream.position + left.length
    current := left.getLast?.or stream.current })

end TokenStream

end FormHarvest
