import FormHarvest.Log
import FormHarvest.Php.Cursor
import FormHarvest.Php.Lexer

namespace FormHarvest

/-- The parsers for what stands inside brackets or behind a prefix operator. -/
structure Inner where
  statements : (close : Option String) → Parse (List Node)
  expression : (least : Nat) → Parse (Option Node)
  unary : Parse (Option Node)
  primary : Parse (Option Node)

namespace Parse

/-- Passes over the brackets of an attribute, its opening sign included. -/
def skipAttribute (rounds : Nat) : Parse Unit := do
  let _ ← advance
  let step (depth : Nat) : Parse (Nat × Bool) := do
    if depth = 0 then return (depth, false)
    if (← peek).isNone then return (depth, false)
    let token ← advance
    if isSign token "[" || isSign token "#[" then return (depth + 1, true)
    else if isSign token "]" then return (depth - 1, true)
    else return (depth, true)
  let _ ← repeatStep step rounds 1

/-- Passes over a declaration of imports. -/
def skipImports (rounds : Nat) : Parse Unit := do
  let _ ← advance
  let step (depth : Int) : Parse (Int × Bool) := do
    if (← peek).isNone then return (depth, false)
    let token ← advance
    if isSign token openBrace then return (depth + 1, true)
    else if isSign token closeBrace then
      if depth - 1 ≤ 0 then
        let _ ← takeSign ";"
        return (depth - 1, false)
      else return (depth - 1, true)
    else if isSign token ";" && depth == 0 then return (depth, false)
    else return (depth, true)
  let _ ← repeatStep step rounds 0

/-- Passes over a type up to one of the given signs or to a closing parenthesis. -/
def skipType (rounds : Nat) (stops : List String) : Parse Unit := do
  let step (depth : Nat) : Parse (Nat × Bool) := do
    let token ← peek
    if token.isNone then return (depth, false)
    if depth = 0 && stops.any (isSign token) then return (depth, false)
    if isSign token "(" then
      let _ ← advance
      return (depth + 1, true)
    else if isSign token ")" then
      if depth = 0 then return (depth, false)
      let _ ← advance
      return (depth - 1, true)
    else
      let _ ← advance
      return (depth, true)
  let _ ← repeatStep step rounds 0

variable (rounds : Nat) (inner : Inner)

/-- Expressions up to and with a closing sign, with separators and argument names between them.
What cannot be read is skipped. -/
def list (close : String) (separators : List String := [",", ";", "=>"]) : Parse (List Node) := do
  let step (nodes : List Node) : Parse (List Node × Bool) := do
    let some token ← peek | return (nodes, false)
    if isSign token close then
      let _ ← advance
      return (nodes, false)
    if separators.any (isSign token) || isWordIn token ["as"] || isSign token "..."
        || isSign token "&" then
      let _ ← advance
      return (nodes, true)
    if token.kind == .name && isSign (← peek 2) ":" then
      let _ ← advance
      let _ ← advance
      return (nodes, true)
    match ← inner.expression 0 with
    | some node => return (node :: nodes, true)
    | none =>
      skip
      return (nodes, true)
  return (← repeatStep step rounds []).reverse

/-- The arguments of a call, whose opening parenthesis comes next. -/
def arguments : Parse (List Node) := do
  let _ ← advance
  list rounds inner ")" [","]

/-- The arguments of a call if it has any. -/
def optionalArguments : Parse (List Node) := do
  if isSign (← peek) "(" then arguments rounds inner else return []

/-- A block in braces if one comes next. -/
def optionalBlock : Parse (List Node) := do
  if ← takeSign openBrace then inner.statements (some closeBrace) else return []

/-- The items of an array up to its closing sign. -/
def array (close : String) (mark : Mark) : Parse Node := do
  let step (items : List (ArrayItem Node)) : Parse (List (ArrayItem Node) × Bool) := do
    let some token ← peek | return (items, false)
    if isSign token close then
      let _ ← advance
      return (items, false)
    if isSign token "," then
      let _ ← advance
      return (items, true)
    let unpack ← takeSign "..."
    let byRef ← if unpack then pure false else takeSign "&"
    match ← inner.expression 0 with
    | none =>
      skip
      return (items, true)
    | some first =>
      if ← takeSign "=>" then
        let byRef := (← takeSign "&") || byRef
        let value ← inner.expression 0
        return ({ key := some first, value, byRef, unpack, mark := { line := first.line } } :: items,
          true)
      else
        return ({ key := none, value := some first, byRef, unpack, mark := { line := first.line } }
          :: items, true)
  return .array (← repeatStep step rounds []).reverse mark

/-- A function without a name. -/
def closure (doc : Option String) : Parse Node := do
  let keyword ← advance
  let line := (keyword.map (·.line)).getD 0
  let arrow := isWordIn keyword ["fn"]
  let _ ← takeSign "&"
  let parameters ← if ← takeSign "(" then list rounds inner ")" else pure []
  if isWordIn (← peek) ["use"] && isSign (← peek 2) "(" then
    let _ ← advance
    let _ ← advance
    let _ ← list rounds inner ")"
  if ← takeSign ":" then skipType rounds ["=>", openBrace, ";"]
  let body ←
    if arrow then
      if ← takeSign "=>" then do pure (← inner.expression assignmentPrecedence).toList
      else pure []
    else optionalBlock inner
  return .closure (parameters ++ body) { line, doc }

/-- The class of a creation with the accesses that compute it. -/
def computedClass (name : String) : Parse String := do
  let step (name : String) : Parse (String × Bool) := do
    let next ← peek
    let member ← peek 2
    if (isSign next "->" || isSign next "::") && (isKind member .name || isKind member .variable) then
      let _ ← advance
      let member ← advance
      return (name ++ "->" ++ (member.map (·.text)).getD "", true)
    else return (name, false)
  repeatStep step rounds name

/-- The creation of an object. -/
def creation (doc : Option String) : Parse Node := do
  let keyword ← advance
  let line : Int := (keyword.map fun t => (t.line : Int)).getD 0
  let token ← peek
  if isWordIn token ["class"] then
    let _ ← advance
    let args ← optionalArguments rounds inner
    skipType rounds [openBrace, ";"]
    let body ← optionalBlock inner
    return .operation "new class" [.creation "class@anonymous" args { line, doc },
      .classBody "class@anonymous" body { line }] { line, doc }
  let className ←
    if isKind token .name then do
      let name ← advance
      pure ((name.map (·.text)).getD "")
    else if isKind token .variable then do
      let name ← advance
      computedClass rounds ("$" ++ (name.map (·.text)).getD "")
    else if ← takeSign "(" then do
      let _ ← list rounds inner ")"
      pure "(expression)"
    else pure ""
  return .creation className (← optionalArguments rounds inner) { line, doc }

/-- What follows a class name and a double colon, which comes next. -/
def staticAccess (className : String) (mark : Mark) : Parse Node := do
  let _ ← advance
  match ← peek with
  | none => return .classConstant className "" mark
  | some member =>
    match member.kind with
    | .name =>
      let _ ← advance
      if isSign (← peek) "(" then
        return .staticCall className member.text (← arguments rounds inner) mark
      else return .classConstant className member.text mark
    | .variable =>
      let _ ← advance
      return .property (.constant className { line := mark.line }) ("$" ++ member.text) mark
    | _ =>
      if ← takeSign openBrace then
        let inside ← list rounds inner closeBrace
        return .operation ("::" ++ computedMember) (.constant className { line := mark.line } :: inside) mark
      else return .classConstant className "" mark

/-- Accesses, calls and the like behind an expression. -/
def postfixes (node : Node) : Parse Node := do
  let step (node : Node) : Parse (Node × Bool) := do
    let some token ← peek | return (node, false)
    if isSign token "->" || isSign token "?->" then
      let _ ← advance
      let some member ← peek | return (node, false)
      let name? ←
        match member.kind with
        | .name => do
          let _ ← advance
          pure (some member.text)
        | .variable => do
          let _ ← advance
          pure (some ("$" ++ member.text))
        | _ =>
          if ← takeSign openBrace then
            let _ ← list rounds inner closeBrace
            pure (some computedMember)
          else pure none
      let some name := name? | return (node, false)
      if isSign (← peek) "(" then
        return (.methodCall node name (← arguments rounds inner) { line := member.line }, true)
      else return (.property node name { line := member.line }, true)
    else if isSign token "::" then
      let _ ← advance
      let some member ← peek | return (node, false)
      match member.kind with
      | .name =>
        let _ ← advance
        if isSign (← peek) "(" then
          return (.methodCall node member.text (← arguments rounds inner) { line := member.line },
            true)
        else
          return (.operation "::" [node, .constant member.text { line := member.line }]
            { line := member.line }, true)
      | .variable =>
        let _ ← advance
        return (.property node ("$" ++ member.text) { line := member.line }, true)
      | _ => return (node, false)
    else if isSign token "[" then
      let _ ← advance
      let index ← list rounds inner "]"
      return (.operation "[]" (node :: index) { line := token.line }, true)
    else if isSign token "(" then
      return (.call "" (some node) (← arguments rounds inner) { line := node.line }, true)
    else if isSign token "++" || isSign token "--" then
      let _ ← advance
      return (.operation ("post" ++ token.text) [node] { line := token.line }, true)
    else return (node, false)
  repeatStep step rounds node

/-- A name that is no keyword of an expression: a call, a static access or a constant. -/
def named (token : Token) (next : Option Token) (mark : Mark) : Parse Node := do
  let _ ← advance
  if isSign next "(" then return .call token.text none (← arguments rounds inner) mark
  else if isSign next "::" then staticAccess rounds inner token.text mark
  else return .constant token.text mark

/-- An operand without prefixes and postfixes. -/
def primary : Parse (Option Node) := do
  let some token ← peek | return none
  let doc ← takeDoc
  let mark : Mark := { line := token.line, doc }
  match token.kind with
  | .variable =>
    let _ ← advance
    return some (.variable token.text mark)
  | .string =>
    let _ ← advance
    return some (.string token.text token.interpolated mark)
  | .number =>
    let _ ← advance
    return some (.number (numberValue token.text) token.text mark)
  | .name =>
    let word := lowercase token.text
    let next ← peek 2
    if (word == "array" || word == "list") && isSign next "(" then
      let _ ← advance
      let _ ← advance
      return some (← array rounds inner ")" mark)
    else if word == "function" || word == "fn" then return some (← closure rounds inner doc)
    else if word == "new" then return some (← creation rounds inner doc)
    else if word == "match" && isSign next "(" then
      let _ ← advance
      let _ ← advance
      let subject ← list rounds inner ")"
      let arms ← if ← takeSign openBrace then list rounds inner closeBrace [",", "=>"] else pure []
      return some (.operation "match" (subject ++ arms) mark)
    else return some (← named rounds inner token next mark)
  | _ =>
    if isSign token "[" then
      let _ ← advance
      return some (← array rounds inner "]" mark)
    else if isSign token "(" then
      let _ ← advance
      match ← list rounds inner ")" with
      | [node] => return some (if node.doc.isNone then node.withDoc doc else node)
      | inside => return some (.operation "()" inside mark)
    else if isSign token "#[" then
      skipAttribute rounds
      setDoc doc
      inner.unary
    else if token.kind == .unknown && token.text == "$" then
      let _ ← advance
      return some (.operation "$" (← inner.primary).toList mark)
    else
      setDoc doc
      return none

/-- An operand with its postfixes. -/
def operand : Parse (Option Node) := do
  match ← primary rounds inner with
  | none => return none
  | some node => return some (← postfixes rounds inner node)

/-- A prefix operator on the operand after it. Signs fold into numbers. -/
def prefixed (token : Token) (operand : Option Node) : Node :=
  match token.text, operand with
  | "-", some (.number value raw mark) =>
    .number value.negate ("-" ++ raw) { line := token.line, doc := mark.doc }
  | "+", some (.number value raw mark) => .number value raw mark
  | text, operand => .operation ("unary" ++ text) operand.toList { line := token.line }

/-- An operand with its prefixes and postfixes. -/
def unary : Parse (Option Node) := do
  let some token ← peek | return none
  if token.kind == .operator && unaryOperators.contains token.text then
    let _ ← advance
    return some (prefixed token (← inner.unary))
  else if isSign token "++" || isSign token "--" then
    let _ ← advance
    return some (.operation ("pre" ++ token.text) (← inner.unary).toList { line := token.line })
  else if isSign token "&" then
    let _ ← advance
    inner.unary
  else if isSign token "(" && isWordIn (← peek 2) castNames && isSign (← peek 3) ")" then
    let _ ← advance
    let type ← advance
    let _ ← advance
    let kind := "(" ++ lowercase ((type.map (·.text)).getD "") ++ ")"
    return some (.operation kind (← inner.unary).toList { line := token.line })
  else if isWordIn token operandWords && !isSign (← peek 2) "(" then
    let _ ← advance
    let word := lowercase token.text
    if word == "yield" && isWordIn (← peek) ["from"] then
      let _ ← advance
    let operand ← inner.expression assignmentPrecedence
    return some (.operation word operand.toList { line := token.line })
  else
    if isWordIn token ["static"] && isWordIn (← peek 2) ["function", "fn"] then
      let _ ← advance
    operand rounds inner

/-- An operation of `left` with an operand that may be missing. -/
def joined (kind : String) (left : Node) (right : Option Node) : Node :=
  .operation kind (left :: right.toList) { line := left.line }

/-- What follows the question mark of a choice, which comes next. -/
def choice (left : Node) : Parse Node := do
  let _ ← advance
  if ← takeSign ":" then
    return joined "?:" left (← inner.expression (ternaryPrecedence + 1))
  let middle ← inner.expression 0
  let right ← if ← takeSign ":" then inner.expression (ternaryPrecedence + 1) else pure none
  return .operation "ternary" (left :: middle.toList ++ right.toList) { line := left.line }

/-- An expression whose operators bind at least as tightly as `least`. -/
def expression (least : Nat) : Parse (Option Node) := do
  let some first ← unary rounds inner | return none
  let step (left : Node) : Parse (Node × Bool) := do
    let some token ← peek | return (left, false)
    if token.kind == .operator && assignmentOperators.contains token.text then
      if assignmentPrecedence < least then return (left, false)
      let _ ← advance
      let _ ← takeSign "&"
      return (joined token.text left (← inner.expression assignmentPrecedence), true)
    else if isSign token "?" then
      if ternaryPrecedence < least then return (left, false)
      return (← choice inner left, true)
    else
      match binaryOperator? token with
      | none => return (left, false)
      | some (name, binding) =>
        if binding.precedence < least then return (left, false)
        let _ ← advance
        let next := if binding.rightAssociative then binding.precedence else binding.precedence + 1
        return (joined name left (← inner.expression next), true)
  return some (← repeatStep step rounds first)

/-- A class, interface, trait or enumeration, whose keyword comes next. -/
def classDeclaration : Parse Node := do
  let keyword ← advance
  let name ← advance
  skipType rounds [openBrace, ";"]
  let body ← optionalBlock inner
  return .classBody ((name.map (·.text)).getD "") body
    { line := (keyword.map fun t => (t.line : Int)).getD 0 }

/-- A function with a name: what its parameters and its body hold. -/
def functionDeclaration : Parse (List Node) := do
  let _ ← advance
  let _ ← takeSign "&"
  let _ ← advance
  let parameters ← if ← takeSign "(" then list rounds inner ")" else pure []
  if ← takeSign ":" then skipType rounds [openBrace, ";"]
  return parameters ++ (← optionalBlock inner)

/-- Passes over one token, which holds no node. -/
def passOver : Parse (List Node) := do
  let _ ← advance
  return []

/-- An expression as a statement. -/
def expressionStatement : Parse (List Node) := do
  return (← expression rounds inner 0).toList

/-- A statement that starts with a name. -/
def namedStatement (token : Token) : Parse (List Node) := do
  let word := lowercase token.text
  let next ← peek 2
  let third ← peek 3
  if word == "namespace" && !isSign next "\\" then
    let _ ← advance
    if isKind (← peek) .name then
      let _ ← advance
    optionalBlock inner
  else if word == "use" && !isSign next "(" then
    skipImports rounds
    return []
  else if classWords.contains word && isKind next .name then
    return [← classDeclaration rounds inner]
  else if modifiers.contains word then passOver
  else if word == "static" && isWordIn next ["function"] && (isKind third .name || isSign third "&")
  then passOver
  else if word == "static" && next.isSome
      && !(isSign next "::" || isSign next "(" || isWordIn next ["function", "fn"])
  then passOver
  else if word == "function" && (isKind next .name || (isSign next "&" && isKind third .name)) then
    functionDeclaration rounds inner
  else if word == "const" || word == "case" then passOver
  else if word == "default" && isSign next ":" then
    let _ ← advance
    passOver
  else if openingWords.contains word then passOver
  else expressionStatement rounds inner

/-- One statement. A closing brace without its opening one is skipped. -/
def statement : Parse (List Node) := do
  let some token ← peek | return []
  if isSign token ";" then passOver
  else if isSign token openBrace then optionalBlock inner
  else if isSign token closeBrace then
    skip
    return []
  else if isSign token "#[" then
    skipAttribute rounds
    return []
  else if token.kind == .name then namedStatement rounds inner token
  else expressionStatement rounds inner

/-- Statements up to and with a closing sign, or up to the end. A token at which no statement can
be read is skipped. -/
def statements (close : Option String) : Parse (List Node) := do
  let step (nodes : List Node) : Parse (List Node × Bool) := do
    let token ← peek
    if token.isNone then return (nodes, false)
    if close.any (isSign token) then
      let _ ← advance
      return (nodes, false)
    let start ← position
    let found ← statement rounds inner
    if (← position) == start then skip
    return (found.reverse ++ nodes, true)
  return (← repeatStep step rounds []).reverse

end Parse

/-- The parsers that read at most `depth` levels of nesting, each loop at most `rounds` times. -/
def Inner.ofDepth (rounds : Nat) : (depth : Nat) → Inner
  | 0 =>
    { statements := fun _ => Parse.tooDeep
      expression := fun _ => Parse.tooDeep
      unary := Parse.tooDeep
      primary := Parse.tooDeep }
  | depth + 1 =>
    let inner := Inner.ofDepth rounds depth
    { statements := Parse.statements rounds inner
      expression := Parse.expression rounds inner
      unary := Parse.unary rounds inner
      primary := Parse.primary rounds inner }

/-- The deepest nesting that is read where nothing else is said. -/
def maxNesting : Nat := 1000

/-- The tokens that matter to the parser. A closing tag ends a statement. -/
def significantTokens (tokens : List Token) : List Token :=
  tokens.filterMap fun token =>
    match token.kind with
    | .openTag | .inlineHtml => none
    | .closeTag => some { token with kind := .punctuation, text := ";" }
    | _ => some token

/-- The trees of a list of tokens and how many tokens were skipped. What is nested in more levels than
`limit` is not read. -/
def parseTokens (tokens : List Token) (limit : Nat := maxNesting) :
    Except NestingFault (List Node × Nat) :=
  let significant := significantTokens tokens
  let rounds := significant.length + 1
  match (Inner.ofDepth rounds limit).statements none { rest := significant } with
  | .error fault => .error fault
  | .ok (nodes, cursor) => .ok (nodes, cursor.skipped)

/-- Why a source has no trees. -/
inductive ParseFault where
  | nesting (path : String) (line : Nat)
  | escape (fault : EscapeFault)
deriving DecidableEq

/-- What is said about a source that is nested too deeply. -/
def nestingMessage (path : String) (line : Nat) : String :=
  s!"Nesting too deep in {path} near line {line}"

/-- The trees of one PHP file. -/
structure SourceUnit where
  path : String
  nodes : List Node

/-- The trees of a source, and the log of reading it. -/
def parseSource (path source : String) (limit : Nat := maxNesting) :
    Except ParseFault (SourceUnit × List LogRecord) :=
  match sourceTokens source with
  | .error fault => .error (.escape fault)
  | .ok tokens =>
    match parseTokens tokens limit with
    | .error fault => .error (.nesting path fault.line)
    | .ok (nodes, skipped) =>
      let log : List LogRecord :=
        if skipped = 0 then []
        else [⟨.debug, .parser, s!"Skipped {skipped} unrecognised tokens in {path}"⟩]
      .ok (⟨path, nodes⟩, log)

end FormHarvest
