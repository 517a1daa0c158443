namespace FormHarvest

/-- The kinds of PHP tokens that the option reader tells apart. -/
inductive TokenKind where
  | inlineHtml
  | openTag
  | closeTag
  | docComment
  | string
  | variable
  | number
  | name
  | operator
  | punctuation
  | unknown
deriving DecidableEq

/-- A token of a PHP source. `raw` is the text as written and `text` its value: a string without
quotes and escapes, a variable without the dollar sign. Lines count from one. An interpolated
string has a value only when the program runs. -/
structure Token where
  kind : TokenKind
  text : String
  raw : String
  line : Nat
  interpolated : Bool
deriving DecidableEq

end FormHarvest
