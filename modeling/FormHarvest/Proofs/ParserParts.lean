import FormHarvest.Php.Parser

namespace FormHarvest

namespace Parse

/-! ### Rounds of the loops -/

/-- A round of passing over an attribute, inside `depth` brackets. -/
def attributeStep (depth : Nat) : Parse (Nat × Bool) := do
  if depth = 0 then return (depth, false)
  if (← peek).isNone then return (depth, false)
  let token ← advance
  if isSign token "[" || isSign token "#[" then return (depth + 1, true)
  else if isSign token "]" then return (depth - 1, true)
  else return (depth, true)

theorem skipAttribute_eq (rounds : Nat) :
    skipAttribute rounds = advance >>= fun _ => (fun _ => ()) <$> repeatStep attributeStep rounds 1 := rfl

/-- A round of passing over imports, inside `depth` braces. -/
def importsStep (depth : Int) : Parse (Int × Bool) := do
  if (← peek).isNone then return (depth, false)
  let token ← advance
  if isSign token openBrace then return (depth + 1, true)
  else if isSign token closeBrace then
    if depth - 1 ≤ 0 then
      let _ ← takeSign ";"
      return (depth - 1, false)
    else return (depth - 1, true)
  else if isSign token ";" && depth == 0 then return (depth, false)
  else return (depth, true)

theorem skipImports_eq (rounds : Nat) :
    skipImports rounds = advance >>= fun _ => (fun _ => ()) <$> repeatStep importsStep rounds 0 := rfl

/-- A round of passing over a type, inside `depth` parentheses. -/
def typeStep (stops : List String) (depth : Nat) : Parse (Nat × Bool) := do
  let token ← peek
  if token.isNone then return (depth, false)
  if depth = 0 && stops.any (isSign token) then return (depth, false)
  if isSign token "(" then
    let _ ← advance
    return (depth + 1, true)
  else if isSign token ")" then
    if depth = 0 then return (depth, false)
    let _ ← advance
    return (depth - 1, true)
  else
    let _ ← advance
    return (depth, true)

theorem skipType_eq (rounds : Nat) (stops : List String) :
    skipType rounds stops = (fun _ => ()) <$> repeatStep (typeStep stops) rounds 0 := rfl

/-- A round of a list: a separator, the name of an argument or an expression. -/
def listStep (inner : Inner) (close : String) (separators : List String) (nodes : List Node) :
    Parse (List Node × Bool) := do
  let some token ← peek | return (nodes, false)
  if isSign token close then
    let _ ← advance
    return (nodes, false)
  if separators.any (isSign token) || isWordIn token ["as"] || isSign token "..."
      || isSign token "&" then
    let _ ← advance
    return (nodes, true)
  if token.kind == .name && isSign (← peek 2) ":" then
    let _ ← advance
    let _ ← advance
    return (nodes, true)
  match ← inner.expression 0 with
  | some node => return (node :: nodes, true)
  | none =>
    skip
    return (nodes, true)

theorem list_eq (rounds : Nat) (inner : Inner) (close : String) (separators : List String) :
    list rounds inner close separators =
      List.reverse <$> repeatStep (listStep inner close separators) rounds [] := rfl

/-- An item of an array without its marks. What is no expression is skipped. -/
def arrayItem (inner : Inner) (items : List (ArrayItem Node)) (unpack byRef : Bool) :
    Parse (List (ArrayItem Node) × Bool) := do
  match ← inner.expression 0 with
  | none =>
    skip
    return (items, true)
  | some first =>
    if ← takeSign "=>" then
      let byRef := (← takeSign "&") || byRef
      let value ← inner.expression 0
      return ({ key := some first, value, byRef, unpack, mark := { line := first.line } } :: items, true)
    else
      return ({ key := none, value := some first, byRef, unpack, mark := { line := first.line } } :: items,
        true)

/-- A round of an array: a comma or an item with its marks. -/
def arrayStep (inner : Inner) (close : String) (items : List (ArrayItem Node)) :
    Parse (List (ArrayItem Node) × Bool) := do
  let some token ← peek | return (items, false)
  if isSign token close then
    let _ ← advance
    return (items, false)
  if isSign token "," then
    let _ ← advance
    return (items, true)
  let unpack ← takeSign "..."
  if unpack then arrayItem inner items unpack false
  else arrayItem inner items unpack (← takeSign "&")

theorem array_eq (rounds : Nat) (inner : Inner) (close : String) (mark : Mark) :
    array rounds inner close mark =
      (fun items => .array items.reverse mark) <$> repeatStep (arrayStep inner close) rounds [] := rfl

/-- A round of the class of a creation: an access. -/
def computedClassStep (name : String) : Parse (String × Bool) := do
  let next ← peek
  let member ← peek 2
  if (isSign next "->" || isSign next "::") && (isKind member .name || isKind member .variable) then
    let _ ← advance
    let member ← advance
    return (name ++ "->" ++ (member.map (·.text)).getD "", true)
  else return (name, false)

theorem computedClass_eq (rounds : Nat) (name : String) :
    computedClass rounds name = repeatStep computedClassStep rounds name := rfl

/-- The member of an object behind an arrow, which comes next, and whether there is one. -/
def member (rounds : Nat) (inner : Inner) (node : Node) : Parse (Node × Bool) := do
  let _ ← advance
  let some member ← peek | return (node, false)
  let name? ←
    match member.kind with
    | .name => do
      let _ ← advance
      pure (some member.text)
    | .variable => do
      let _ ← advance
      pure (some ("$" ++ member.text))
    | _ =>
      if ← takeSign openBrace then
        let _ ← list rounds inner closeBrace
        pure (some computedMember)
      else pure none
  let some name := name? | return (node, false)
  if isSign (← peek) "(" then
    return (.methodCall node name (← arguments rounds inner) { line := member.line }, true)
  else return (.property node name { line := member.line }, true)

/-- The member of a class behind a double colon, which comes next, and whether there is one. -/
def staticMember (rounds : Nat) (inner : Inner) (node : Node) : Parse (Node × Bool) := do
  let _ ← advance
  let some member ← peek | return (node, false)
  match member.kind with
  | .name =>
    let _ ← advance
    if isSign (← peek) "(" then
      return (.methodCall node member.text (← arguments rounds inner) { line := member.line }, true)
    else
      return (.operation "::" [node, .constant member.text { line := member.line }] { line := member.line }, true)
  | .variable =>
    let _ ← advance
    return (.property node ("$" ++ member.text) { line := member.line }, true)
  | _ => return (node, false)

/-- A round of what follows an expression: an access, a call or a step up or down. -/
def postfixStep (rounds : Nat) (inner : Inner) (node : Node) : Parse (Node × Bool) := do
  let some token ← peek | return (node, false)
  if isSign token "->" || isSign token "?->" then member rounds inner node
  else if isSign token "::" then staticMember rounds inner node
  else if isSign token "[" then
    let _ ← advance
    let index ← list rounds inner "]"
    return (.operation "[]" (node :: index) { line := token.line }, true)
  else if isSign token "(" then
    return (.call "" (some node) (← arguments rounds inner) { line := node.line }, true)
  else if isSign token "++" || isSign token "--" then
    let _ ← advance
    return (.operation ("post" ++ token.text) [node] { line := token.line }, true)
  else return (node, false)

theorem postfixes_eq (rounds : Nat) (inner : Inner) (node : Node) :
    postfixes rounds inner node = repeatStep (postfixStep rounds inner) rounds node := rfl

/-- A round of an expression: an assignment, a choice or an operator with what stands behind it. -/
def expressionStep (inner : Inner) (least : Nat) (left : Node) : Parse (Node × Bool) := do
  let some token ← peek | return (left, false)
  if token.kind == .operator && assignmentOperators.contains token.text then
    if assignmentPrecedence < least then return (left, false)
    let _ ← advance
    let _ ← takeSign "&"
    return (joined token.text left (← inner.expression assignmentPrecedence), true)
  else if isSign token "?" then
    if ternaryPrecedence < least then return (left, false)
    return (← choice inner left, true)
  else
    match binaryOperator? token with
    | none => return (left, false)
    | some (name, binding) =>
      if binding.precedence < least then return (left, false)
      let _ ← advance
      let next := if binding.rightAssociative then binding.precedence else binding.precedence + 1
      return (joined name left (← inner.expression next), true)

theorem expression_eq (rounds : Nat) (inner : Inner) (least : Nat) :
    expression rounds inner least = (do
      let some first ← unary rounds inner | return none
      return some (← repeatStep (expressionStep inner least) rounds first)) := rfl

/-- One round of the loop over statements. -/
def statementStep (rounds : Nat) (inner : Inner) (close : Option String) (nodes : List Node) :
    Parse (List Node × Bool) := do
  let token ← peek
  if token.isNone then return (nodes, false)
  if close.any (isSign token) then
    let _ ← advance
    return (nodes, false)
  let start ← position
  let found ← statement rounds inner
  if (← position) == start then skip
  return (found.reverse ++ nodes, true)

theorem statements_eq (rounds : Nat) (inner : Inner) (close : Option String) :
    statements rounds inner close = List.reverse <$> repeatStep (statementStep rounds inner close) rounds [] := rfl

/-! ### Parts of long parsers -/

/-- What follows the parameters of a closure: its type and its body. -/
def closureEnd (rounds : Nat) (inner : Inner) (arrow : Bool) (parameters : List Node) (mark : Mark) :
    Parse Node := do
  if ← takeSign ":" then skipType rounds ["=>", openBrace, ";"]
  let body ←
    if arrow then
      if ← takeSign "=>" then do pure (← inner.expression assignmentPrecedence).toList
      else pure []
    else optionalBlock inner
  return .closure (parameters ++ body) mark

/-- An operand that starts with a name. -/
def namedOperand (rounds : Nat) (inner : Inner) (token : Token) (next : Option Token) (doc : Option String)
    (mark : Mark) : Parse (Option Node) := do
  let word := lowercase token.text
  if (word == "array" || word == "list") && isSign next "(" then
    let _ ← advance
    let _ ← advance
    return some (← array rounds inner ")" mark)
  else if word == "function" || word == "fn" then return some (← closure rounds inner doc)
  else if word == "new" then return some (← creation rounds inner doc)
  else if word == "match" && isSign next "(" then
    let _ ← advance
    let _ ← advance
    let subject ← list rounds inner ")"
    let arms ← if ← takeSign openBrace then list rounds inner closeBrace [",", "=>"] else pure []
    return some (.operation "match" (subject ++ arms) mark)
  else return some (← named rounds inner token next mark)

/-- An operand that starts with a sign. -/
def signOperand (rounds : Nat) (inner : Inner) (token : Token) (kind : TokenKind) (doc : Option String)
    (mark : Mark) : Parse (Option Node) := do
  if isSign token "[" then
    let _ ← advance
    return some (← array rounds inner "]" mark)
  else if isSign token "(" then
    let _ ← advance
    match ← list rounds inner ")" with
    | [node] => return some (if node.doc.isNone then node.withDoc doc else node)
    | inside => return some (.operation "()" inside mark)
  else if isSign token "#[" then
    skipAttribute rounds
    setDoc doc
    inner.unary
  else if kind == .unknown && token.text == "$" then
    let _ ← advance
    return some (.operation "$" (← inner.primary).toList mark)
  else
    setDoc doc
    return none

/-- An operand, or one behind a word that takes it. -/
def wordOperand (rounds : Nat) (inner : Inner) (token : Token) : Parse (Option Node) := do
  if isWordIn token operandWords && !isSign (← peek 2) "(" then
    let _ ← advance
    let word := lowercase token.text
    if word == "yield" && isWordIn (← peek) ["from"] then
      let _ ← advance
    let operand ← inner.expression assignmentPrecedence
    return some (.operation word operand.toList { line := token.line })
  else
    if isWordIn token ["static"] && isWordIn (← peek 2) ["function", "fn"] then
      let _ ← advance
    operand rounds inner

/-- A statement that starts with a name, before the two tokens behind it. -/
def statementBefore (rounds : Nat) (inner : Inner) (token : Token) (next third : Option Token) : Parse (List Node) := do
  let word := lowercase token.text
  if word == "namespace" && !isSign next "\\" then
    let _ ← advance
    if isKind (← peek) .name then
      let _ ← advance
    optionalBlock inner
  else if word == "use" && !isSign next "(" then
    skipImports rounds
    return []
  else if classWords.contains word && isKind next .name then
    return [← classDeclaration rounds inner]
  else if modifiers.contains word then passOver
  else if word == "static" && isWordIn next ["function"] && (isKind third .name || isSign third "&")
  then passOver
  else if word == "static" && next.isSome
      && !(isSign next "::" || isSign next "(" || isWordIn next ["function", "fn"])
  then passOver
  else if word == "function" && (isKind next .name || (isSign next "&" && isKind third .name)) then
    functionDeclaration rounds inner
  else if word == "const" || word == "case" then passOver
  else if word == "default" && isSign next ":" then
    let _ ← advance
    passOver
  else if openingWords.contains word then passOver
  else expressionStatement rounds inner

end Parse

end FormHarvest
