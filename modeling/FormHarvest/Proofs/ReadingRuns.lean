import FormHarvest.Proofs.OptionMaps
import FormHarvest.Proofs.ParseSteps
import FormHarvest.Php.Parser

namespace FormHarvest

theorem significantTokens_of_stands {lexemes : List Lexeme} {tokens : List Token}
    (stands : Stands lexemes tokens) : significantTokens tokens = tokens := by
  induction stands with
  | nil => rfl
  | @cons lexeme lexemes tokens raw line stands ih =>
    rw [significantTokens, List.filterMap_cons] at *
    cases lexeme with
    | sign mark => cases mark <;> simp [Lexeme.token, Lexeme.kind, Punctuator.kind, ih]
    | _ => simp [Lexeme.token, Lexeme.kind, ih]

/-! ### What stands before and behind an expression -/

/-- The signs that end an expression of an option map. -/
def Punctuator.endsExpression : Punctuator → Bool
  | .comma | .semicolon | .doubleArrow | .closeParen | .closeBracket => true
  | _ => false

/-- An expression is over before these tokens. -/
inductive Follows : List Token → Prop
  | intro (mark : Punctuator) (ends : mark.endsExpression = true) (raw : String) (line : Nat)
    (rest : List Token) : Follows ((Lexeme.sign mark).token raw line :: rest)

/-- The signs with which accesses and the like behind an operand start. -/
def postfixSigns : List String := ["->", "?->", "::", "[", "(", "++", "--"]

/-- An operand is over before these tokens. -/
inductive Rests : List Token → Prop
  | intro {token : Token} (isRead : token.isRead = true)
    (noPostfix : ∀ text ∈ postfixSigns, isSign (some token) text = false) (rest : List Token) :
    Rests (token :: rest)

theorem Follows.rests {tokens : List Token} (follows : Follows tokens) : Rests tokens := by
  obtain ⟨mark, ends, raw, line, rest⟩ := follows
  refine .intro (by cases mark <;> rfl) (fun text member => ?_) rest
  have other : mark.text ∉ postfixSigns := by cases mark <;> first | decide | cases ends
  have apart : mark.text ≠ text := fun same => other (same ▸ member)
  have written : ((Lexeme.sign mark).token raw line).text = mark.text := rfl
  simp [isSign, written, apart]

/-- A token behind an operand that neither makes a label nor a static access of it, and a call only
where it may be called. -/
structure Continues (called : Bool) (token : Token) : Prop where
  isRead : token.isRead = true
  noLabel : isSign (some token) ":" = false
  noAccess : isSign (some token) "::" = false
  noCall : called = false → isSign (some token) "(" = false

/-- The first tokens of an expression: no sign but those given, no keyword, no label, and neither a
type in parentheses nor a type that could stand in some. -/
structure Opens (signs : List String) (token : Token) (rest : List Token) : Prop where
  isRead : token.isRead = true
  sign : ∀ text, text ∉ signs → isSign (some token) text = false
  word : token.kind = .name → lowercase token.text ∉ keywords
  noLabel : token.kind = .name → isSign (Cursor.ahead? 0 rest) ":" = false
  typeCalled : isWordIn (some token) castNames = true → isSign (Cursor.ahead? 0 rest) "(" = true
  noCast : isSign (some token) "(" = true →
    (isWordIn (Cursor.ahead? 0 rest) castNames && isSign (Cursor.ahead? 1 rest) ")") = false

namespace Opens

variable {signs : List String} {token : Token} {rest : List Token}

theorem mono {more : List String} (opens : Opens signs token rest) (sub : signs ⊆ more) :
    Opens more token rest :=
  { opens with sign := fun text absent => opens.sign text fun member => absent (sub member) }

theorem isWordIn_eq_false (opens : Opens signs token rest) {words : List String}
    (sub : words ⊆ keywords) : isWordIn (some token) words = false := by
  cases name : token.kind == .name with
  | false => simp [isWordIn, name]
  | true =>
    have absent := fun member => opens.word (by simpa using name) (sub member)
    simpa [isWordIn, name] using absent

theorem label_eq_false (opens : Opens signs token rest) :
    (token.kind == .name && isSign (Cursor.ahead? 0 rest) ":") = false := by
  cases name : token.kind == .name with
  | false => rfl
  | true => simpa using opens.noLabel (by simpa using name)

theorem operator_eq_false (opens : Opens signs token rest) {operators : List String}
    (apart : ∀ text ∈ operators, text ∉ signs) :
    (token.kind == .operator && operators.contains token.text) = false := by
  cases operator : token.kind == .operator with
  | false => rfl
  | true =>
    cases member : operators.contains token.text with
    | false => rfl
    | true =>
      have noSign := opens.sign token.text (apart _ (by simpa using member))
      simp [isSign, operator] at noSign

end Opens

theorem Name.ne_of_mem_reservedWords (name : Name) {word : String} (reserved : word ∈ reservedWords) :
    (lowercase name.text == word) = false := by
  have free := name.free
  simp only [List.contains_eq_mem, decide_eq_false_iff_not] at free
  exact beq_eq_false_iff_ne.mpr fun same => free (same ▸ reserved)

theorem Identifier.text_lexeme (name : Identifier) : name.lexeme.text = name.text := by
  simp [lexeme, Lexeme.text, NamePath.text, NamePath.chars, text]

namespace Member

variable (member : Member) (name : Identifier) (raw : String) (line : Nat)

theorem isRead_token : (member.lexeme.token raw line).isRead = true := by cases member <;> rfl

theorem kind_named_token : ((named name).lexeme.token raw line).kind = .name := rfl

theorem kind_held_token : ((held name).lexeme.token raw line).kind = .variable := rfl

theorem text_named_token : ((named name).lexeme.token raw line).text = (named name).text :=
  name.text_lexeme

theorem text_held_token : "$" ++ ((held name).lexeme.token raw line).text = (held name).text := rfl

end Member

namespace Parse

variable {α β : Type}

/-! ### Runs -/

theorem bind_run {parse : Parse α} {next : α → Parse β} {cursor after : Cursor} {a : α}
    (run : parse cursor = .ok (a, after)) : (parse >>= next) cursor = next a after := by
  simp only [bind, StateT.bind, Except.bind, run]

theorem map_run {parse : Parse α} {f : α → β} {cursor after : Cursor} {a : α}
    (run : parse cursor = .ok (a, after)) : (f <$> parse) cursor = .ok (f a, after) := by
  simp only [Functor.map, StateT.map, bind, Except.bind, run]
  rfl

theorem ahead?_cons {token : Token} (isRead : token.isRead = true) (rest : List Token) :
    Cursor.ahead? 0 (token :: rest) = some token := by
  have noDoc : (token.kind == .docComment) = false := by simpa [Token.isRead] using isRead
  simp [Cursor.ahead?, noDoc]

theorem ahead?_succ_cons {token : Token} (isRead : token.isRead = true) (n : Nat) (rest : List Token) :
    Cursor.ahead? (n + 1) (token :: rest) = Cursor.ahead? n rest := by
  have noDoc : (token.kind == .docComment) = false := by simpa [Token.isRead] using isRead
  simp [Cursor.ahead?, noDoc]

section Token

variable {token : Token} (isRead : token.isRead = true) {rest : List Token} {doc : Option String}
  {position skipped : Nat}

include isRead

theorem peek_run : peek 1 ⟨token :: rest, doc, position, skipped⟩ =
    .ok (some token, ⟨token :: rest, doc, position, skipped⟩) := by
  have noDoc : (token.kind == .docComment) = false := by simpa [Token.isRead] using isRead
  simp [peek, Cursor.settle, Cursor.settleFrom, Cursor.ahead?, noDoc]

theorem peek_second_run : peek 2 ⟨token :: rest, doc, position, skipped⟩ =
    .ok (Cursor.ahead? 0 rest, ⟨token :: rest, doc, position, skipped⟩) := by
  have noDoc : (token.kind == .docComment) = false := by simpa [Token.isRead] using isRead
  simp [peek, Cursor.settle, Cursor.settleFrom, Cursor.ahead?, noDoc]

theorem peek_third_run : peek 3 ⟨token :: rest, doc, position, skipped⟩ =
    .ok (Cursor.ahead? 1 rest, ⟨token :: rest, doc, position, skipped⟩) := by
  have noDoc : (token.kind == .docComment) = false := by simpa [Token.isRead] using isRead
  simp [peek, Cursor.settle, Cursor.settleFrom, Cursor.ahead?, noDoc]

theorem takeDoc_run : takeDoc ⟨token :: rest, doc, position, skipped⟩ =
    .ok (doc, ⟨token :: rest, none, position, skipped⟩) := by
  have noDoc : (token.kind == .docComment) = false := by simpa [Token.isRead] using isRead
  simp [takeDoc, Cursor.settle, Cursor.settleFrom, noDoc]

theorem advance_run : advance ⟨token :: rest, none, position, skipped⟩ =
    .ok (some token, ⟨rest, none, position + 1, skipped⟩) := by
  have noDoc : (token.kind == .docComment) = false := by simpa [Token.isRead] using isRead
  simp [advance, Cursor.advance, Cursor.settle, Cursor.settleFrom, noDoc]

theorem takeSign_run {text : String} (sign : isSign (some token) text = true) :
    takeSign text ⟨token :: rest, none, position, skipped⟩ =
      .ok (true, ⟨rest, none, position + 1, skipped⟩) := by
  rw [takeSign, bind_run (peek_run isRead), if_pos sign, bind_run (advance_run isRead)]
  rfl

theorem takeSign_run_other {text : String} (other : isSign (some token) text = false) :
    takeSign text ⟨token :: rest, doc, position, skipped⟩ =
      .ok (false, ⟨token :: rest, doc, position, skipped⟩) := by
  rw [takeSign, bind_run (peek_run isRead), other]
  rfl

end Token

/-! ### Loops -/

/-- Some rounds of a loop, each of which takes a token and asks for more. -/
inductive Repeats (step : α → Parse (α × Bool)) : α → Cursor → α → Cursor → Prop
  | refl (value : α) (cursor : Cursor) : Repeats step value cursor value cursor
  | next {value middle last : α} {cursor between after : Cursor} :
    step value cursor = .ok ((middle, true), between) → between.rest.length < cursor.rest.length →
      Repeats step middle between last after → Repeats step value cursor last after

namespace Repeats

variable {step : α → Parse (α × Bool)} {value middle last : α} {cursor between after : Cursor}

theorem one (run : step value cursor = .ok ((last, true), after))
    (shorter : after.rest.length < cursor.rest.length) : Repeats step value cursor last after :=
  .next run shorter (.refl _ _)

theorem trans (first : Repeats step value cursor middle between)
    (second : Repeats step middle between last after) : Repeats step value cursor last after := by
  induction first with
  | refl => exact second
  | next run shorter _ ih => exact .next run shorter (ih second)

/-- A loop with a round for each token ends where a round asks for no more. -/
theorem repeatStep_run {result : α} {final : Cursor} {rounds : Nat}
    (repeats : Repeats step value cursor last after)
    (ends : step last after = .ok ((result, false), final)) (enough : cursor.rest.length < rounds) :
    repeatStep step rounds value cursor = .ok (result, final) := by
  induction repeats generalizing rounds with
  | refl value cursor =>
    obtain ⟨rounds, rfl⟩ : ∃ fewer, rounds = fewer + 1 := ⟨rounds - 1, by omega⟩
    rw [repeatStep, bind_run ends]
    rfl
  | next run shorter _ ih =>
    obtain ⟨rounds, rfl⟩ : ∃ fewer, rounds = fewer + 1 := ⟨rounds - 1, by omega⟩
    rw [repeatStep, bind_run run]
    exact ih ends (by omega)

end Repeats

variable {rounds : Nat} {inner : Inner}

/-- The signs before which an expression cannot start but may go on. -/
def leadSigns : List String := ["(", "["] ++ unaryOperators

/-- The rounds of a list in parentheses. -/
structure ListStep (inner : Inner) (step : List Node → Parse (List Node × Bool)) : Prop where
  closes (nodes : List Node) (raw : String) (line : Nat) (rest : List Token) (position skipped : Nat) :
    step nodes ⟨(Lexeme.sign .closeParen).token raw line :: rest, none, position, skipped⟩ =
      .ok ((nodes, false), ⟨rest, none, position + 1, skipped⟩)
  passes (nodes : List Node) (raw : String) (line : Nat) (rest : List Token) (position skipped : Nat) :
    step nodes ⟨(Lexeme.sign .comma).token raw line :: rest, none, position, skipped⟩ =
      .ok ((nodes, true), ⟨rest, none, position + 1, skipped⟩)
  reads {token : Token} {rest : List Token} {position skipped : Nat} {node : Node} {after : Cursor}
    (nodes : List Node) (opens : Opens leadSigns token rest)
    (read : inner.expression 0 ⟨token :: rest, none, position, skipped⟩ = .ok (some node, after)) :
    step nodes ⟨token :: rest, none, position, skipped⟩ = .ok ((node :: nodes, true), after)

variable (rounds inner) in
theorem exists_listStep {separators : List String} (comma : "," ∈ separators)
    (apart : ∀ text ∈ separators, text ∉ leadSigns) :
    ∃ step, list rounds inner ")" separators = List.reverse <$> repeatStep step rounds [] ∧
      ListStep inner step := by
  refine ⟨_, rfl, ⟨fun _ _ _ _ _ _ => rfl, ?_, ?_⟩⟩
  · intro nodes raw line rest position skipped
    have isRead : ((Lexeme.sign .comma).token raw line).isRead = true := rfl
    have separates : separators.any (isSign (some ((Lexeme.sign .comma).token raw line))) = true :=
      List.any_eq_true.mpr ⟨",", comma, rfl⟩
    have noClose : isSign (some ((Lexeme.sign .comma).token raw line)) ")" = false := rfl
    simp only [bind_run (peek_run isRead), noClose, separates, Bool.true_or, Bool.false_eq_true,
      if_false, if_true, bind_run (advance_run isRead)]
    rfl
  · intro token rest position skipped node after nodes opens read
    have noSeparator : separators.any (isSign (some token)) = false :=
      List.any_eq_false.mpr fun text member => by simp [opens.sign text (apart text member)]
    simp only [bind_run (peek_run opens.isRead), bind_run (peek_second_run opens.isRead),
      opens.sign ")" (by decide), noSeparator, opens.label_eq_false,
      opens.isWordIn_eq_false (show ["as"] ⊆ keywords by decide), opens.sign "..." (by decide),
      opens.sign "&" (by decide), Bool.or_false, Bool.false_eq_true, if_false, bind_run read]
    rfl

/-- The rounds of an array literal. -/
structure ArrayStep (inner : Inner) (close : Punctuator)
    (step : List (ArrayItem Node) → Parse (List (ArrayItem Node) × Bool)) : Prop where
  closes (items : List (ArrayItem Node)) (raw : String) (line : Nat) (rest : List Token)
    (position skipped : Nat) :
    step items ⟨(Lexeme.sign close).token raw line :: rest, none, position, skipped⟩ =
      .ok ((items, false), ⟨rest, none, position + 1, skipped⟩)
  passes (items : List (ArrayItem Node)) (raw : String) (line : Nat) (rest : List Token)
    (position skipped : Nat) :
    step items ⟨(Lexeme.sign .comma).token raw line :: rest, none, position, skipped⟩ =
      .ok ((items, true), ⟨rest, none, position + 1, skipped⟩)
  notes (items : List (ArrayItem Node)) (doc : DocBody) (raw : String) (line : Nat)
    (rest : List Token) (position skipped : Nat) :
    step items ⟨(Lexeme.doc doc).token raw line :: rest, none, position, skipped⟩ =
      step items ⟨rest, some doc.text, position + 1, skipped⟩
  unkeyed {token next : Token} {rest behind : List Token} {position skipped further : Nat}
    {node : Node} (items : List (ArrayItem Node)) (opens : Opens leadSigns token rest)
    (isRead : next.isRead = true) (noArrow : isSign (some next) "=>" = false)
    (read : inner.expression 0 ⟨token :: rest, none, position, skipped⟩ =
      .ok (some node, ⟨next :: behind, none, further, skipped⟩)) :
    step items ⟨token :: rest, none, position, skipped⟩ =
      .ok (({ key := none, value := some node, mark := { line := node.line } } :: items, true),
        ⟨next :: behind, none, further, skipped⟩)
  spread {token next : Token} {rest behind : List Token} {position skipped further : Nat}
    {node : Node} (items : List (ArrayItem Node)) (raw : String) (line : Nat)
    (opens : Opens leadSigns token rest)
    (isRead : next.isRead = true) (noArrow : isSign (some next) "=>" = false)
    (read : inner.expression 0 ⟨token :: rest, none, position + 1, skipped⟩ =
      .ok (some node, ⟨next :: behind, none, further, skipped⟩)) :
    step items ⟨(Lexeme.sign .ellipsis).token raw line :: token :: rest, none, position, skipped⟩ =
      .ok (({ key := none, value := some node, unpack := true, mark := { line := node.line } } :: items,
        true), ⟨next :: behind, none, further, skipped⟩)
  keyed {token next : Token} {rest behind : List Token} {doc : Option String}
    {position skipped further : Nat} {key value : Node} {after : Cursor}
    (items : List (ArrayItem Node)) (raw : String) (line : Nat) (opens : Opens leadSigns token rest)
    (readKey : inner.expression 0 ⟨token :: rest, doc, position, skipped⟩ =
      .ok (some key, ⟨(Lexeme.sign .doubleArrow).token raw line :: next :: behind, none, further, skipped⟩))
    (opensValue : Opens leadSigns next behind)
    (readValue : inner.expression 0 ⟨next :: behind, none, further + 1, skipped⟩ =
      .ok (some value, after)) :
    step items ⟨token :: rest, doc, position, skipped⟩ =
      .ok (({ key := some key, value := some value, mark := { line := key.line } } :: items, true), after)

variable (rounds inner) in
theorem exists_arrayStep {close : Punctuator} (closes : close = .closeBracket ∨ close = .closeParen)
    (mark : Mark) :
    ∃ step, array rounds inner close.text mark =
        (fun items => Node.array items.reverse mark) <$> repeatStep step rounds [] ∧
      ArrayStep inner close step := by
  refine ⟨_, rfl, ⟨?_, ?_, ?_, ?_, ?_, ?_⟩⟩
  · rcases closes with rfl | rfl <;> exact fun _ _ _ _ _ _ => rfl
  · rcases closes with rfl | rfl <;> exact fun _ _ _ _ _ _ => rfl
  · rcases closes with rfl | rfl <;> exact fun _ _ _ _ _ _ _ => rfl
  · intro token next rest behind position skipped further node items opens isRead noArrow read
    have noClose : isSign (some token) close.text = false := by
      rcases closes with rfl | rfl <;> exact opens.sign _ (by decide)
    simp only [bind_run (peek_run opens.isRead), noClose, opens.sign "," (by decide),
      Bool.false_eq_true, if_false,
      bind_run (takeSign_run_other opens.isRead (opens.sign "..." (by decide))),
      bind_run (takeSign_run_other opens.isRead (opens.sign "&" (by decide))),
      bind_run read, bind_run (takeSign_run_other isRead noArrow)]
    rfl
  · intro token next rest behind position skipped further node items raw line opens isRead noArrow read
    have dots : ((Lexeme.sign .ellipsis).token raw line).isRead = true := rfl
    have noClose : isSign (some ((Lexeme.sign .ellipsis).token raw line)) close.text = false := by
      rcases closes with rfl | rfl <;> rfl
    have noComma : isSign (some ((Lexeme.sign .ellipsis).token raw line)) "," = false := rfl
    have taken : isSign (some ((Lexeme.sign .ellipsis).token raw line)) "..." = true := rfl
    simp only [bind_run (peek_run dots), noClose, noComma, Bool.false_eq_true, if_false,
      bind_run (takeSign_run dots taken), if_true, pure_bind, bind_run read,
      bind_run (takeSign_run_other isRead noArrow)]
    rfl
  · intro token next rest behind doc position skipped further key value after items raw line opens
      readKey opensValue readValue
    have arrow : ((Lexeme.sign .doubleArrow).token raw line).isRead = true := rfl
    have taken : isSign (some ((Lexeme.sign .doubleArrow).token raw line)) "=>" = true := rfl
    have noClose : isSign (some token) close.text = false := by
      rcases closes with rfl | rfl <;> exact opens.sign _ (by decide)
    simp only [bind_run (peek_run opens.isRead), noClose, opens.sign "," (by decide),
      Bool.false_eq_true, if_false,
      bind_run (takeSign_run_other opens.isRead (opens.sign "..." (by decide))),
      bind_run (takeSign_run_other opens.isRead (opens.sign "&" (by decide))),
      bind_run readKey, bind_run (takeSign_run arrow taken), if_true,
      bind_run (takeSign_run_other opensValue.isRead (opensValue.sign "&" (by decide))),
      bind_run readValue]
    rfl

theorem arguments_run {raw : String} {line : Nat} {rest : List Token} {position skipped : Nat}
    {args : List Node} {after : Cursor}
    (run : list rounds inner ")" [","] ⟨rest, none, position + 1, skipped⟩ = .ok (args, after)) :
    arguments rounds inner
        ⟨(Lexeme.sign .openParen).token raw line :: rest, none, position, skipped⟩ =
      .ok (args, after) := run

theorem optionalArguments_run {raw : String} {line : Nat} {rest : List Token}
    {position skipped : Nat} {args : List Node} {after : Cursor}
    (run : list rounds inner ")" [","] ⟨rest, none, position + 1, skipped⟩ = .ok (args, after)) :
    optionalArguments rounds inner
        ⟨(Lexeme.sign .openParen).token raw line :: rest, none, position, skipped⟩ =
      .ok (args, after) := run

/-- The rounds of the accesses and calls behind an operand. -/
structure PostfixStep (rounds : Nat) (inner : Inner) (step : Node → Parse (Node × Bool)) : Prop where
  stops (node : Node) {tokens : List Token} (rests : Rests tokens) (position skipped : Nat) :
    step node ⟨tokens, none, position, skipped⟩ = .ok ((node, false), ⟨tokens, none, position, skipped⟩)
  accesses (node : Node) (member : Member) (raw memberRaw : String) (line memberLine : Nat)
    {next : Token} (rest : List Token) (position skipped : Nat) (isRead : next.isRead = true)
    (noCall : isSign (some next) "(" = false) :
    step node ⟨(Lexeme.sign .arrow).token raw line :: member.lexeme.token memberRaw memberLine ::
        next :: rest, none, position, skipped⟩ =
      .ok ((.property node member.text { line := memberLine }, true),
        ⟨next :: rest, none, position + 2, skipped⟩)
  calls (node : Node) (member : Member) (raw memberRaw parenRaw : String) (line memberLine parenLine : Nat)
    {rest : List Token} {position skipped : Nat} {args : List Node} {after : Cursor}
    (read : list rounds inner ")" [","] ⟨rest, none, position + 3, skipped⟩ = .ok (args, after)) :
    step node ⟨(Lexeme.sign .arrow).token raw line :: member.lexeme.token memberRaw memberLine ::
        (Lexeme.sign .openParen).token parenRaw parenLine :: rest, none, position, skipped⟩ =
      .ok ((.methodCall node member.text args { line := memberLine }, true), after)
  invokes (node : Node) (raw : String) (line : Nat) {rest : List Token} {position skipped : Nat}
    {args : List Node} {after : Cursor}
    (read : list rounds inner ")" [","] ⟨rest, none, position + 1, skipped⟩ = .ok (args, after)) :
    step node ⟨(Lexeme.sign .openParen).token raw line :: rest, none, position, skipped⟩ =
      .ok ((.call "" (some node) args { line := node.line }, true), after)

variable (rounds inner) in
theorem exists_postfixStep :
    ∃ step, postfixes rounds inner = repeatStep step rounds ∧ PostfixStep rounds inner step := by
  refine ⟨_, rfl, ⟨?_, ?_, ?_, ?_⟩⟩
  · rintro node _ ⟨isRead, noPostfix, rest⟩ position skipped
    simp only [bind_run (peek_run isRead), noPostfix "->" (by decide), noPostfix "?->" (by decide),
      noPostfix "::" (by decide), noPostfix "[" (by decide), noPostfix "(" (by decide),
      noPostfix "++" (by decide), noPostfix "--" (by decide), Bool.or_false, Bool.false_eq_true, if_false]
    rfl
  · intro node member raw memberRaw line memberLine next rest position skipped isRead noCall
    have arrow : ((Lexeme.sign .arrow).token raw line).isRead = true := rfl
    have isArrow : isSign (some ((Lexeme.sign .arrow).token raw line)) "->" = true := rfl
    have read := member.isRead_token memberRaw memberLine
    cases member <;>
      simp only [bind_run (peek_run arrow), isArrow, Bool.true_or, if_true, bind_run (advance_run arrow),
        bind_run (peek_run read), Member.kind_named_token, Member.kind_held_token,
        bind_run (advance_run read), pure_bind, bind_run (peek_run isRead), noCall, Bool.false_eq_true,
        if_false, Member.text_named_token, Member.text_held_token] <;> rfl
  · intro node member raw memberRaw parenRaw line memberLine parenLine rest position skipped args after run
    have arrow : ((Lexeme.sign .arrow).token raw line).isRead = true := rfl
    have isArrow : isSign (some ((Lexeme.sign .arrow).token raw line)) "->" = true := rfl
    have paren : ((Lexeme.sign .openParen).token parenRaw parenLine).isRead = true := rfl
    have isParen : isSign (some ((Lexeme.sign .openParen).token parenRaw parenLine)) "(" = true := rfl
    have read := member.isRead_token memberRaw memberLine
    cases member <;>
      simp only [bind_run (peek_run arrow), isArrow, Bool.true_or, if_true, bind_run (advance_run arrow),
        bind_run (peek_run read), Member.kind_named_token, Member.kind_held_token,
        bind_run (advance_run read), pure_bind, bind_run (peek_run paren), isParen,
        bind_run (arguments_run run), Member.text_named_token, Member.text_held_token] <;> rfl
  · intro node raw line rest position skipped args after run
    have call : ((fun args => (Node.call "" (some node) args { line := node.line }, true)) <$>
        list rounds inner ")" [","]) ⟨rest, none, position + 1, skipped⟩ =
          .ok ((.call "" (some node) args { line := node.line }, true), after) := map_run run
    exact call

/-! ### Operands -/

section Name

variable (name : Name) (raw : String) (line : Nat) {rest : List Token} {position skipped : Nat}

/-- A name that is none of the words of the parser is a call, a static access or a constant. -/
theorem primary_name (next : Token) (isRead : next.isRead = true) :
    primary rounds inner ⟨(Lexeme.name name.path).token raw line :: next :: rest, none, position, skipped⟩ =
      (some <$> named rounds inner ((Lexeme.name name.path).token raw line) (some next)
        { line := line }) ⟨(Lexeme.name name.path).token raw line :: next :: rest, none, position, skipped⟩ := by
  have read : ((Lexeme.name name.path).token raw line).isRead = true := rfl
  have kind : ((Lexeme.name name.path).token raw line).kind = .name := rfl
  have other (word : String) (reserved : word ∈ reservedWords) :
      (lowercase ((Lexeme.name name.path).token raw line).text == word) = false :=
    name.ne_of_mem_reservedWords reserved
  simp only [primary, bind_run (peek_run read), bind_run (takeDoc_run read), kind,
    bind_run (peek_second_run read), ahead?_cons isRead, other "array" (by decide),
    other "list" (by decide), other "function" (by decide), other "fn" (by decide),
    other "new" (by decide), other "match" (by decide), Bool.or_false, Bool.false_and,
    Bool.false_eq_true, if_false]
  rfl

theorem primary_constant (next : Token) (isRead : next.isRead = true)
    (noCall : isSign (some next) "(" = false) (noAccess : isSign (some next) "::" = false) :
    primary rounds inner ⟨(Lexeme.name name.path).token raw line :: next :: rest, none, position, skipped⟩ =
      .ok (some (.constant name.text { line }), ⟨next :: rest, none, position + 1, skipped⟩) := by
  have read : ((Lexeme.name name.path).token raw line).isRead = true := rfl
  rw [primary_name name raw line next isRead, map_run]
  rw [named, bind_run (advance_run read), noCall, noAccess]
  rfl

theorem primary_call (parenRaw : String) (parenLine : Nat) {args : List Node} {after : Cursor}
    (run : list rounds inner ")" [","] ⟨rest, none, position + 2, skipped⟩ = .ok (args, after)) :
    primary rounds inner ⟨(Lexeme.name name.path).token raw line ::
        (Lexeme.sign .openParen).token parenRaw parenLine :: rest, none, position, skipped⟩ =
      .ok (some (.call name.text none args { line }), after) := by
  have read : ((Lexeme.name name.path).token raw line).isRead = true := rfl
  have isParen : isSign (some ((Lexeme.sign .openParen).token parenRaw parenLine)) "(" = true := rfl
  rw [primary_name name raw line _ rfl, map_run]
  rw [named, bind_run (advance_run read), if_pos isParen, bind_run (arguments_run run)]
  rfl

/-- A class name before a double colon. -/
theorem primary_static (colonRaw : String) (colonLine : Nat) {node : Node} {after : Cursor}
    (run : staticAccess rounds inner name.text { line }
      ⟨(Lexeme.sign .doubleColon).token colonRaw colonLine :: rest, none, position + 1, skipped⟩ =
        .ok (node, after)) :
    primary rounds inner ⟨(Lexeme.name name.path).token raw line ::
        (Lexeme.sign .doubleColon).token colonRaw colonLine :: rest, none, position, skipped⟩ =
      .ok (some node, after) := by
  have read : ((Lexeme.name name.path).token raw line).isRead = true := rfl
  have noParen : isSign (some ((Lexeme.sign .doubleColon).token colonRaw colonLine)) "(" = false := rfl
  have isAccess : isSign (some ((Lexeme.sign .doubleColon).token colonRaw colonLine)) "::" = true := rfl
  rw [primary_name name raw line _ rfl, map_run]
  rw [named, bind_run (advance_run read), noParen, if_neg Bool.false_ne_true, if_pos isAccess]
  exact run

end Name

section Static

variable (className : String) (mark : Mark) (member : Identifier) (raw memberRaw : String)
  (line memberLine : Nat) {rest : List Token} {position skipped : Nat}

theorem staticAccess_constant (next : Token) (isRead : next.isRead = true)
    (noCall : isSign (some next) "(" = false) :
    staticAccess rounds inner className mark ⟨(Lexeme.sign .doubleColon).token raw line ::
        member.lexeme.token memberRaw memberLine :: next :: rest, none, position, skipped⟩ =
      .ok (.classConstant className member.text mark, ⟨next :: rest, none, position + 2, skipped⟩) := by
  have colon : ((Lexeme.sign .doubleColon).token raw line).isRead = true := rfl
  have read : (member.lexeme.token memberRaw memberLine).isRead = true := rfl
  have kind : (member.lexeme.token memberRaw memberLine).kind = .name := rfl
  have text : (member.lexeme.token memberRaw memberLine).text = member.text := member.text_lexeme
  rw [staticAccess, bind_run (advance_run colon), bind_run (peek_run read)]
  simp only [kind, bind_run (advance_run read), bind_run (peek_run isRead), noCall, text,
    Bool.false_eq_true, if_false]
  rfl

theorem staticAccess_call (parenRaw : String) (parenLine : Nat) {args : List Node} {after : Cursor}
    (run : list rounds inner ")" [","] ⟨rest, none, position + 3, skipped⟩ = .ok (args, after)) :
    staticAccess rounds inner className mark ⟨(Lexeme.sign .doubleColon).token raw line ::
        member.lexeme.token memberRaw memberLine ::
        (Lexeme.sign .openParen).token parenRaw parenLine :: rest, none, position, skipped⟩ =
      .ok (.staticCall className member.text args mark, after) := by
  have colon : ((Lexeme.sign .doubleColon).token raw line).isRead = true := rfl
  have read : (member.lexeme.token memberRaw memberLine).isRead = true := rfl
  have kind : (member.lexeme.token memberRaw memberLine).kind = .name := rfl
  have text : (member.lexeme.token memberRaw memberLine).text = member.text := member.text_lexeme
  have paren : ((Lexeme.sign .openParen).token parenRaw parenLine).isRead = true := rfl
  have isParen : isSign (some ((Lexeme.sign .openParen).token parenRaw parenLine)) "(" = true := rfl
  rw [staticAccess, bind_run (advance_run colon), bind_run (peek_run read)]
  simp only [kind, bind_run (advance_run read), bind_run (peek_run paren), isParen, if_true, text,
    bind_run (arguments_run run)]
  rfl

theorem staticAccess_property :
    staticAccess rounds inner className mark ⟨(Lexeme.sign .doubleColon).token raw line ::
        (Lexeme.var member).token memberRaw memberLine :: rest, none, position, skipped⟩ =
      .ok (.property (.constant className { line := mark.line }) ("$" ++ member.text) mark,
        ⟨rest, none, position + 2, skipped⟩) := rfl

end Static

theorem primary_string (text raw : String) (line : Nat) (rest : List Token) (doc : Option String)
    (position skipped : Nat) :
    primary rounds inner ⟨(Lexeme.string text).token raw line :: rest, doc, position, skipped⟩ =
      .ok (some (.string text false { line, doc }), ⟨rest, none, position + 1, skipped⟩) := rfl

theorem primary_number (numeral : Numeral) (raw : String) (line : Nat) (rest : List Token)
    (position skipped : Nat) :
    primary rounds inner ⟨(Lexeme.number numeral).token raw line :: rest, none, position, skipped⟩ =
      .ok (some (.number (.whole numeral.value) numeral.text { line }),
        ⟨rest, none, position + 1, skipped⟩) := by
  rw [← numeral.numberValue_text]
  rfl

theorem lowercase_arrayWord : lowercase arrayWord.lexeme.text = "array" := by decide +kernel

theorem lowercase_newWord : lowercase newWord.lexeme.text = "new" := by decide +kernel

theorem primary_longArray {raw parenRaw : String} {line parenLine : Nat} {rest : List Token}
    {position skipped : Nat} {node : Node} {after : Cursor}
    (run : array rounds inner ")" { line } ⟨rest, none, position + 2, skipped⟩ = .ok (node, after)) :
    primary rounds inner ⟨arrayWord.lexeme.token raw line ::
        (Lexeme.sign .openParen).token parenRaw parenLine :: rest, none, position, skipped⟩ =
      .ok (some node, after) := by
  have read : (arrayWord.lexeme.token raw line).isRead = true := rfl
  have kind : (arrayWord.lexeme.token raw line).kind = .name := rfl
  have word : lowercase (arrayWord.lexeme.token raw line).text = "array" := lowercase_arrayWord
  have paren : ((Lexeme.sign .openParen).token parenRaw parenLine).isRead = true := rfl
  have isParen : isSign (some ((Lexeme.sign .openParen).token parenRaw parenLine)) "(" = true := rfl
  simp only [primary, bind_run (peek_run read), bind_run (takeDoc_run read), kind, word,
    bind_run (peek_second_run read), ahead?_cons paren, isParen, beq_self_eq_true, Bool.true_or,
    Bool.and_self, if_true, bind_run (advance_run read), bind_run (advance_run paren)]
  exact map_run run

theorem primary_creation (className : Name) {raw nameRaw parenRaw : String}
    {line nameLine parenLine : Nat} {rest : List Token} {position skipped : Nat} {args : List Node}
    {after : Cursor}
    (run : list rounds inner ")" [","] ⟨rest, none, position + 3, skipped⟩ = .ok (args, after)) :
    primary rounds inner ⟨newWord.lexeme.token raw line :: (Lexeme.name className.path).token nameRaw nameLine ::
        (Lexeme.sign .openParen).token parenRaw parenLine :: rest, none, position, skipped⟩ =
      .ok (some (.creation className.text args { line }), after) := by
  have read : (newWord.lexeme.token raw line).isRead = true := rfl
  have kind : (newWord.lexeme.token raw line).kind = .name := rfl
  have word : lowercase (newWord.lexeme.token raw line).text = "new" := lowercase_newWord
  have nameRead : ((Lexeme.name className.path).token nameRaw nameLine).isRead = true := rfl
  have nameKind : isKind (some ((Lexeme.name className.path).token nameRaw nameLine)) .name = true := rfl
  have noClass : isWordIn (some ((Lexeme.name className.path).token nameRaw nameLine)) ["class"] = false := by
    have other := className.ne_of_mem_reservedWords (show "class" ∈ reservedWords by decide)
    show (true && ["class"].contains (lowercase className.text)) = false
    simpa using other
  have noParen : isSign (some ((Lexeme.name className.path).token nameRaw nameLine)) "(" = false := rfl
  have created : creation rounds inner none ⟨newWord.lexeme.token raw line ::
      (Lexeme.name className.path).token nameRaw nameLine ::
      (Lexeme.sign .openParen).token parenRaw parenLine :: rest, none, position, skipped⟩ =
        .ok (.creation className.text args { line }, after) := by
    simp only [creation, bind_run (advance_run read), bind_run (peek_run nameRead), noClass,
      Bool.false_eq_true, if_false, bind_run (takeSign_run_other nameRead noParen), nameKind, if_true,
      bind_run (advance_run nameRead), pure_bind, bind_run (optionalArguments_run run)]
    rfl
  simp only [primary, bind_run (peek_run read), bind_run (takeDoc_run read), kind, word,
    bind_run (peek_second_run read)]
  exact map_run created

theorem withDoc_doc (node : Node) : node.withDoc node.doc = node := by cases node <;> rfl

theorem primary_parenthesised (raw : String) (line : Nat) {rest : List Token} {position skipped : Nat}
    {node : Node} {after : Cursor} (noDoc : node.doc = none)
    (run : list rounds inner ")" [",", ";", "=>"] ⟨rest, none, position + 1, skipped⟩ =
      .ok ([node], after)) :
    primary rounds inner ⟨(Lexeme.sign .openParen).token raw line :: rest, none, position, skipped⟩ =
      .ok (some node, after) := by
  have bare : (if node.doc.isNone then node.withDoc none else node) = node := by
    have same := withDoc_doc node
    rw [noDoc] at same ⊢
    exact same
  have read : ((Lexeme.sign .openParen).token raw line).isRead = true := rfl
  have kind : ((Lexeme.sign .openParen).token raw line).kind = .punctuation := rfl
  have noBracket : isSign (some ((Lexeme.sign .openParen).token raw line)) "[" = false := rfl
  have isParen : isSign (some ((Lexeme.sign .openParen).token raw line)) "(" = true := rfl
  simp only [primary, bind_run (peek_run read), bind_run (takeDoc_run read), kind, noBracket, isParen,
    Bool.false_eq_true, if_false, if_true, bind_run (advance_run read), bind_run run, bare]
  rfl

/-! ### Operands with their surroundings -/

/-- An operand is read by its first token and the accesses behind it. -/
theorem operand_run {step : Node → Parse (Node × Bool)} (loop : postfixes rounds inner = repeatStep step rounds)
    (accesses : PostfixStep rounds inner step) {cursor middle : Cursor} {first last : Node}
    {tokens : List Token} {position skipped : Nat}
    (read : primary rounds inner cursor = .ok (some first, middle))
    (repeats : Repeats step first middle last ⟨tokens, none, position, skipped⟩)
    (rests : Rests tokens) (enough : middle.rest.length < rounds) :
    operand rounds inner cursor = .ok (some last, ⟨tokens, none, position, skipped⟩) := by
  rw [operand, bind_run read]
  simp only [loop]
  exact map_run (repeats.repeatStep_run (accesses.stops last rests position skipped) enough)

/-- What opens like an operand has no prefix. -/
theorem unary_run {token : Token} {rest : List Token} (opens : Opens ["(", "["] token rest)
    (doc : Option String) (position skipped : Nat) :
    unary rounds inner ⟨token :: rest, doc, position, skipped⟩ =
      operand rounds inner ⟨token :: rest, doc, position, skipped⟩ := by
  have noPrefix := opens.operator_eq_false (show ∀ text ∈ unaryOperators, text ∉ ["(", "["] by decide)
  have noCast : (isSign (some token) "(" && isWordIn (Cursor.ahead? 0 rest) castNames &&
      isSign (Cursor.ahead? 1 rest) ")") = false := by
    cases paren : isSign (some token) "(" with
    | false => rfl
    | true => simpa using opens.noCast paren
  simp only [unary, bind_run (peek_run opens.isRead), noPrefix, opens.sign "++" (by decide),
    opens.sign "--" (by decide), opens.sign "&" (by decide), bind_run (peek_second_run opens.isRead),
    bind_run (peek_third_run opens.isRead), noCast,
    opens.isWordIn_eq_false (show operandWords ⊆ keywords by decide),
    opens.isWordIn_eq_false (show ["static"] ⊆ keywords by decide), Bool.false_and, Bool.or_false,
    Bool.false_eq_true, if_false]

/-- A minus sign before a number belongs to the number. -/
theorem unary_minus_run {raw : String} {line : Nat} {rest : List Token} {position skipped : Nat}
    {value : NumberValue} {text : String} {mark : Mark} {after : Cursor}
    (run : inner.unary ⟨rest, none, position + 1, skipped⟩ = .ok (some (.number value text mark), after)) :
    unary rounds inner ⟨(Lexeme.sign .minus).token raw line :: rest, none, position, skipped⟩ =
      .ok (some (.number value.negate ("-" ++ text) { line, doc := mark.doc }), after) :=
  map_run (f := fun operand => some (prefixed ((Lexeme.sign .minus).token raw line) operand)) run

/-- What follows an expression of an option map is no operator. -/
theorem expression_run {least : Nat} {cursor : Cursor} {node : Node} {tokens : List Token}
    {position skipped : Nat}
    (read : unary rounds inner cursor = .ok (some node, ⟨tokens, none, position, skipped⟩))
    (follows : Follows tokens) (enough : 0 < rounds) :
    expression rounds inner least cursor = .ok (some node, ⟨tokens, none, position, skipped⟩) := by
  obtain ⟨rounds, rfl⟩ : ∃ fewer, rounds = fewer + 1 := ⟨rounds - 1, by omega⟩
  rw [expression, bind_run read]
  obtain ⟨mark, ends, raw, line, rest⟩ := follows
  cases mark <;> first | rfl | cases ends

end Parse

end FormHarvest
