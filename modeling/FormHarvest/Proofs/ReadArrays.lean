import FormHarvest.Proofs.ReadingRuns

namespace FormHarvest

namespace Follows

variable {tokens : List Token}

theorem exists_continues (follows : Follows tokens) :
    ∃ token rest, tokens = token :: rest ∧ Continues false token := by
  obtain ⟨mark, ends, raw, line, rest⟩ := follows
  refine ⟨_, rest, rfl, ?_⟩
  cases mark <;> first | exact ⟨rfl, rfl, rfl, fun _ => rfl⟩ | cases ends

end Follows

theorem Continues.weaken {called : Bool} {token : Token} (continues : Continues false token) :
    Continues called token :=
  { continues with noCall := fun _ => continues.noCall rfl }

theorem continues_arrow (raw : String) (line : Nat) (called : Bool) :
    Continues called ((Lexeme.sign .arrow).token raw line) := ⟨rfl, rfl, rfl, fun _ => rfl⟩

theorem continues_openParen (raw : String) (line : Nat) :
    Continues true ((Lexeme.sign .openParen).token raw line) := ⟨rfl, rfl, rfl, nofun⟩

theorem continues_closeParen (raw : String) (line : Nat) (called : Bool) :
    Continues called ((Lexeme.sign .closeParen).token raw line) := ⟨rfl, rfl, rfl, fun _ => rfl⟩

/-! ### First tokens -/

theorem opens_of_kind {token : Token} (rest : List Token) (signs : List String)
    (kind : token.kind = .variable ∨ token.kind = .string ∨ token.kind = .number) :
    Opens signs token rest where
  isRead := by rcases kind with kind | kind | kind <;> simp [Token.isRead, kind]
  sign text _ := by rcases kind with kind | kind | kind <;> simp [isSign, kind]
  word name := by rcases kind with kind | kind | kind <;> simp [kind] at name
  noLabel name := by rcases kind with kind | kind | kind <;> simp [kind] at name
  typeCalled type := by rcases kind with kind | kind | kind <;> simp [isWordIn, kind] at type
  noCast paren := by rcases kind with kind | kind | kind <;> simp [isSign, kind] at paren

theorem opens_of_sign (mark : Punctuator) (raw : String) (line : Nat) (rest : List Token)
    (other : mark ≠ .openParen) : Opens [mark.text] ((Lexeme.sign mark).token raw line) rest where
  isRead := by cases mark <;> rfl
  sign text absent := by
    have apart : mark.text ≠ text := fun same => absent (by simp [same])
    have kind : ((Lexeme.sign mark).token raw line).text = mark.text := rfl
    simp [isSign, kind, apart]
  word name := by cases mark <;> cases name
  noLabel name := by cases mark <;> cases name
  typeCalled type := by cases mark <;> cases type
  noCast paren := by cases mark <;> first | exact absurd rfl other | cases paren

theorem opens_of_name (path : NamePath) (raw : String) (line : Nat) (rest : List Token)
    (word : lowercase path.text ∉ keywords) (noLabel : isSign (Cursor.ahead? 0 rest) ":" = false)
    (typeCalled : lowercase path.text ∈ castNames → isSign (Cursor.ahead? 0 rest) "(" = true) :
    Opens [] ((Lexeme.name path).token raw line) rest where
  isRead := rfl
  sign text _ := rfl
  word _ := word
  noLabel _ := noLabel
  typeCalled type := typeCalled (by
    have member : castNames.contains (lowercase path.text) = true := type
    simpa using member)
  noCast paren := by cases paren

/-- What stands in parentheses is no type. -/
theorem opens_of_openParen {signs : List String} {token : Token} {behind : List Token}
    (opens : Opens signs token behind) (raw : String) (line : Nat) :
    Opens ["("] ((Lexeme.sign .openParen).token raw line) (token :: behind) where
  isRead := rfl
  sign text absent := by
    have apart : "(" ≠ text := fun same => absent (by simp [same])
    have kind : ((Lexeme.sign .openParen).token raw line).text = "(" := rfl
    simp [isSign, kind, apart]
  word name := by cases name
  noLabel name := by cases name
  typeCalled type := by cases type
  noCast _ := by
    rw [Parse.ahead?_cons opens.isRead, Parse.ahead?_succ_cons opens.isRead]
    cases type : isWordIn (some token) castNames with
    | false => rfl
    | true => simpa using isSign_eq_false_of_isSign (by decide) (opens.typeCalled type)

theorem Name.notMem_keywords (name : Name) : lowercase name.path.text ∉ keywords := by
  intro member
  have free := name.free
  simp [reservedWords, member] at free

theorem Name.notMem_castNames (name : Name) : lowercase name.path.text ∉ castNames := by
  intro member
  have free := name.free
  simp [reservedWords, member] at free

theorem continues_doubleArrow (raw : String) (line : Nat) (called : Bool) :
    Continues called ((Lexeme.sign .doubleArrow).token raw line) := ⟨rfl, rfl, rfl, fun _ => rfl⟩

namespace Expression

def isNegative : Expression → Bool
  | .number negative _ => negative
  | _ => false

/-- The signs that an expression may start with. -/
def leads (expression : Expression) : List String :=
  if expression.isNegative then ["-"] else ["(", "["]

theorem leads_subset (expression : Expression) : expression.leads ⊆ Parse.leadSigns := by
  unfold leads
  split <;> decide

theorem not_isNegative_of_isOpen {expression : Expression} {called : Bool}
    (open_ : expression.isOpen called = true) : expression.isNegative = false := by
  cases expression <;> first | rfl | cases open_

/-- The first tokens of an expression as its surroundings see them. -/
def ShowsLead (expression : Expression) : Prop :=
  ∀ ⦃tokens : List Token⦄ ⦃next : Token⦄ (rest : List Token), Stands expression.lexemes tokens →
    Continues true next →
    ∃ token behind, tokens ++ next :: rest = token :: behind ∧ Opens expression.leads token behind

/-- The first tokens of what an access or a call stands behind. -/
theorem ShowsLead.receiver {receiver : Expression} (shows : receiver.ShowsLead) (called : Bool)
    {tokens : List Token} {next : Token} (rest : List Token)
    (stands : Stands (if receiver.isOpen called then receiver.lexemes
      else parenthesised receiver.lexemes) tokens) (continues : Continues true next) :
    ∃ token behind, tokens ++ next :: rest = token :: behind ∧ Opens ["(", "["] token behind := by
  cases open_ : receiver.isOpen called with
  | true =>
    rw [if_pos open_] at stands
    obtain ⟨token, behind, same, opens⟩ := shows rest stands continues
    rw [leads, not_isNegative_of_isOpen open_] at opens
    exact ⟨token, behind, same, opens⟩
  | false =>
    rw [open_, if_neg Bool.false_ne_true] at stands
    cases stands with
    | cons raw line stands =>
      obtain ⟨inside, closing, rfl, atInside, atClosing⟩ := stands.exists_append
      cases atClosing with
      | cons closeRaw closeLine atEnd =>
        cases atEnd
        obtain ⟨token, behind, same, opens⟩ := shows (next :: rest) atInside
          (continues_closeParen closeRaw closeLine true)
        refine ⟨_, token :: behind, ?_, (opens_of_openParen opens raw line).mono (by decide)⟩
        rw [← same]
        simp

theorem exists_opens_word (path : NamePath) {lexemes : List Lexeme} {tokens : List Token} {next : Token}
    (rest : List Token) (stands : Stands (.name path :: lexemes) tokens) (continues : Continues true next)
    (word : lowercase path.text ∉ keywords)
    (called : lowercase path.text ∈ castNames → lexemes.head? = some (.sign .openParen))
    (noLabel : ∀ lexeme ∈ lexemes.head?, lexeme.kind ≠ .docComment ∧ isSign (some (lexeme.token "" 0)) ":" = false) :
    ∃ token behind, tokens ++ next :: rest = token :: behind ∧ Opens ["(", "["] token behind := by
  cases stands with
  | cons raw line stands =>
    refine ⟨_, _, rfl, (opens_of_name path raw line _ word ?_ fun type => ?_).mono (List.nil_subset _)⟩
    · cases stands with
      | nil => exact (Parse.ahead?_cons continues.isRead rest).symm ▸ continues.noLabel
      | cons raw line stands =>
        rename_i lexeme lexemes tokens
        obtain ⟨read, noColon⟩ := noLabel lexeme rfl
        have isRead : (lexeme.token raw line).isRead = true := by
          simpa [Token.isRead, Lexeme.token] using read
        exact (Parse.ahead?_cons isRead _).symm ▸ noColon
    · have first := called type
      cases stands with
      | nil => cases first
      | cons raw line stands =>
        cases first
        rfl

theorem exists_opens_name (name : Name) {lexemes : List Lexeme} {tokens : List Token} {next : Token}
    (rest : List Token) (stands : Stands (.name name.path :: lexemes) tokens) (continues : Continues true next)
    (noLabel : ∀ lexeme ∈ lexemes.head?, lexeme.kind ≠ .docComment ∧ isSign (some (lexeme.token "" 0)) ":" = false) :
    ∃ token behind, tokens ++ next :: rest = token :: behind ∧ Opens ["(", "["] token behind :=
  exists_opens_word name.path rest stands continues name.notMem_keywords
    (fun type => absurd type name.notMem_castNames) noLabel

theorem exists_opens_plain {lexeme : Lexeme} {tokens : List Token} (behind : List Token) (signs : List String)
    (stands : Stands [lexeme] tokens)
    (kind : lexeme.kind = .variable ∨ lexeme.kind = .string ∨ lexeme.kind = .number) :
    ∃ token rest, tokens ++ behind = token :: rest ∧ Opens signs token rest := by
  cases stands with
  | cons raw line stands =>
    cases stands
    exact ⟨_, behind, rfl, opens_of_kind _ _ kind⟩

/-- The first tokens of an expression do not show the words and signs that the parser looks for. -/
theorem showsLead : (expression : Expression) → expression.ShowsLead
  | .var _, _, _, rest, stands, _ => exists_opens_plain (_ :: rest) _ stands (.inl rfl)
  | .string _, _, _, rest, stands, _ => exists_opens_plain (_ :: rest) _ stands (.inr (.inl rfl))
  | .number false _, _, _, rest, stands, _ => exists_opens_plain (_ :: rest) _ stands (.inr (.inr rfl))
  | .number true _, _, _, rest, stands, _ => by
    cases stands with
    | cons raw line stands => exact ⟨_, _, rfl, opens_of_sign .minus raw line _ (by decide)⟩
  | .constant name, _, _, rest, stands, continues =>
    exists_opens_name name rest stands continues nofun
  | .classConstant className _, _, _, rest, stands, continues
  | .staticCall className _ _, _, _, rest, stands, continues
  | .staticProperty className _, _, _, rest, stands, continues =>
    exists_opens_name className rest stands continues fun _ first => by cases first; decide
  | .call name _, _, _, rest, stands, continues =>
    exists_opens_name name rest stands continues fun _ first => by cases first; decide
  | .array false _, _, _, rest, stands, _ => by
    cases stands with
    | cons raw line stands =>
      have sub : ["["] ⊆ ["(", "["] := by decide
      exact ⟨_, _, rfl, (opens_of_sign .openBracket raw line _ (by decide)).mono sub⟩
  | .array true _, _, _, rest, stands, continues => by
    refine exists_opens_word _ rest stands continues ?_ (fun _ => rfl) fun _ first => by cases first; decide
    exact Parse.lowercase_arrayWord ▸ by decide
  | .creation _ _, _, _, rest, stands, continues => by
    have word : lowercase (NamePath.text ⟨false, newWord, []⟩) = "new" := Parse.lowercase_newWord
    refine exists_opens_word _ rest stands continues (word ▸ by decide) (fun type => ?_) fun _ first => ?_
    · rw [word] at type
      exact absurd type (by decide)
    · cases first
      exact ⟨by simp [Lexeme.kind], rfl⟩
  | .callOf callee args, _, _, rest, stands, _ => by
    obtain ⟨front, back, rfl, atCallee, atArgs⟩ := stands.exists_append
    cases atArgs with
    | cons raw line atArgs =>
      rw [List.append_assoc]
      exact callee.showsLead.receiver true _ atCallee (continues_openParen raw line)
  | .methodCall receiver _ _, _, _, rest, stands, _
  | .property receiver _, _, _, rest, stands, _ => by
    obtain ⟨front, back, rfl, atReceiver, behind⟩ := stands.exists_append
    cases behind with
    | cons raw line behind =>
      rw [List.append_assoc]
      exact receiver.showsLead.receiver false _ atReceiver (continues_arrow raw line true)

/-! ### Lists of parts -/

theorem pieces_eq_map (args : List Expression) : pieces args = args.map lexemes := by
  induction args with
  | nil => rfl
  | cons expression args ih => rw [pieces, ih, List.map_cons]

theorem itemPieces_eq_map (items : List (ItemOf Expression)) : itemPieces items = items.map itemLexemes := by
  induction items with
  | nil => rfl
  | cons item items ih => rw [itemPieces, ih, List.map_cons]

theorem nodes_eq_map (args : List Expression) : nodes args = args.map node := by
  induction args with
  | nil => rfl
  | cons expression args ih => rw [nodes, ih, List.map_cons]

theorem itemNodes_eq_map (items : List (ItemOf Expression)) : itemNodes items = items.map itemNode := by
  induction items with
  | nil => rfl
  | cons item items ih => rw [itemNodes, ih, List.map_cons]

theorem nesting_lt_of_mem {args : List Expression} {depth : Nat} (small : argsNesting args ≤ depth)
    {expression : Expression} (member : expression ∈ args) : expression.nesting < depth := by
  induction args with
  | nil => cases member
  | cons first args ih =>
    simp only [argsNesting] at small
    rcases List.mem_cons.mp member with rfl | member
    · omega
    · exact ih (by omega) member

theorem itemNesting_le_of_mem {items : List (ItemOf Expression)} {depth : Nat}
    (small : itemsNesting items ≤ depth) {item : ItemOf Expression} (member : item ∈ items) :
    itemNesting item ≤ depth := by
  induction items with
  | nil => cases member
  | cons first items ih =>
    simp only [itemsNesting] at small
    rcases List.mem_cons.mp member with rfl | member
    · omega
    · exact ih (by omega) member

theorem lexemes_ne_nil (expression : Expression) : expression.lexemes ≠ [] := by
  cases expression with
  | number negative numeral => cases negative <;> nofun
  | array long items => cases long <;> nofun
  | callOf callee args => simp [lexemes, parenthesised]
  | methodCall receiver member args => simp [lexemes]
  | property receiver member => simp [lexemes]
  | _ => nofun

theorem length_pos_of_stands (expression : Expression) {tokens : List Token}
    (stands : Stands expression.lexemes tokens) : 0 < tokens.length := by
  cases tokens with
  | nil =>
    have none_ : expression.lexemes = [] := by
      generalize expression.lexemes = lexemes at stands
      cases stands
      rfl
    exact absurd none_ expression.lexemes_ne_nil
  | cons token tokens => exact Nat.succ_pos _

/-- A parser reads an expression as its tree, whatever follows it. -/
def ReadBy (rounds : Nat) (parse : Parse (Option Node)) (expression : Expression) : Prop :=
  ∀ ⦃tokens rest : List Token⦄ (position skipped : Nat), Stands expression.lexemes tokens →
    Follows rest → tokens.length + rest.length < rounds →
    ∃ node : Node, node.withoutLines = expression.node ∧
      parse ⟨tokens ++ rest, none, position, skipped⟩ =
        .ok (some node, ⟨rest, none, position + tokens.length, skipped⟩)

end Expression

namespace Parse

open Expression

/-- A part of a list or an array is over before these tokens. -/
def EndsPart (tokens : List Token) : Prop := Follows tokens ∧ isSign tokens.head? "=>" = false

theorem endsPart_comma (raw : String) (line : Nat) (rest : List Token) :
    EndsPart ((Lexeme.sign .comma).token raw line :: rest) := ⟨.intro .comma rfl raw line rest, rfl⟩

/-- Parts with commas between them are read one after the other when each of them is read. -/
theorem repeats_separated {ι σ τ : Type} {step : List σ → Parse (List σ × Bool)} (rounds : Nat)
    (written : ι → List Lexeme) (bare : σ → τ) (tree : ι → τ)
    (passes : ∀ values raw line rest position skipped,
      step values ⟨(Lexeme.sign .comma).token raw line :: rest, none, position, skipped⟩ =
        .ok ((values, true), ⟨rest, none, position + 1, skipped⟩))
    (parts : List ι)
    (one : ∀ part ∈ parts, ∀ (values : List σ) {tokens rest : List Token} (position skipped : Nat),
      Stands (written part) tokens → EndsPart rest → tokens.length + rest.length < rounds →
      ∃ value, bare value = tree part ∧ Repeats step values ⟨tokens ++ rest, none, position, skipped⟩
        (value :: values) ⟨rest, none, position + tokens.length, skipped⟩)
    (values : List σ) {tokens rest : List Token} (position skipped : Nat)
    (stands : Stands (separated (parts.map written)) tokens) (ends : EndsPart rest)
    (enough : tokens.length + rest.length < rounds) :
    ∃ found : List σ, found.map bare = parts.map tree ∧
      Repeats step values ⟨tokens ++ rest, none, position, skipped⟩ (found.reverse ++ values)
        ⟨rest, none, position + tokens.length, skipped⟩ := by
  induction parts generalizing values tokens position with
  | nil =>
    cases stands
    exact ⟨[], rfl, .refl _ _⟩
  | cons part parts ih =>
    cases parts with
    | nil =>
      obtain ⟨value, same, repeats⟩ := one part (List.mem_cons_self ..) values position skipped stands
        ends enough
      exact ⟨[value], by simp [same], repeats⟩
    | cons second parts =>
      obtain ⟨front, back, rfl, atPart, behind⟩ := stands.exists_append
      cases behind with
      | cons raw line behind =>
        rename_i back
        simp only [List.length_append, List.length_cons] at enough
        obtain ⟨value, same, repeats⟩ := one part (List.mem_cons_self ..) values position skipped atPart
          (endsPart_comma raw line (back ++ rest)) (by simp only [List.length_append, List.length_cons]; omega)
        obtain ⟨found, all, further⟩ := ih (fun other member => one other (List.mem_cons_of_mem _ member))
          (value :: values) (position + front.length + 1) behind (by omega)
        refine ⟨value :: found, by simp [same, all], ?_⟩
        have passed := passes (value :: values) raw line (back ++ rest) (position + front.length) skipped
        have whole := repeats.trans (.next passed (by simp) further)
        simpa [Nat.add_assoc, Nat.add_comm 1] using whole

variable {rounds depth : Nat} {inner : Inner}

/-- The parsers behind brackets read what nests less deep than they can. -/
structure InnerReads (rounds : Nat) (inner : Inner) (depth : Nat) : Prop where
  expression (expression : Expression) (small : expression.nesting < depth) :
    expression.ReadBy rounds (inner.expression 0)
  key (positive : 0 < depth) (text : String) (doc : Option String) (raw : String) (line : Nat)
    {rest : List Token} (position skipped : Nat) (follows : Follows rest)
    (enough : rest.length + 1 < rounds) :
    inner.expression 0 ⟨(Lexeme.string text).token raw line :: rest, doc, position, skipped⟩ =
      .ok (some (.string text false { line, doc }), ⟨rest, none, position + 1, skipped⟩)
  number (positive : 0 < depth) (numeral : Numeral) (raw : String) (line : Nat) {rest : List Token}
    (position skipped : Nat) (follows : Follows rest) (enough : rest.length + 1 < rounds) :
    inner.unary ⟨(Lexeme.number numeral).token raw line :: rest, none, position, skipped⟩ =
      .ok (some (.number (.whole numeral.value) numeral.text { line }),
        ⟨rest, none, position + 1, skipped⟩)

theorem InnerReads.list (reads : InnerReads rounds inner depth) (separators : List String)
    (comma : "," ∈ separators) (apart : ∀ text ∈ separators, text ∉ leadSigns) (args : List Expression)
    (small : argsNesting args ≤ depth) {tokens : List Token} (rest : List Token) (position skipped : Nat)
    (stands : Stands (separated (pieces args) ++ [.sign .closeParen]) tokens)
    (enough : tokens.length + rest.length < rounds) :
    ∃ found : List Node, found.map Node.withoutLines = nodes args ∧
      Parse.list rounds inner ")" separators ⟨tokens ++ rest, none, position, skipped⟩ =
        .ok (found, ⟨rest, none, position + tokens.length, skipped⟩) := by
  obtain ⟨step, isLoop, loop⟩ := exists_listStep rounds inner comma apart
  obtain ⟨inside, closing, rfl, atInside, atClosing⟩ := stands.exists_append
  cases atClosing with
  | cons raw line atEnd =>
    cases atEnd
    simp only [List.length_append, List.length_singleton] at enough
    have closes : EndsPart ((Lexeme.sign .closeParen).token raw line :: rest) :=
      ⟨.intro .closeParen rfl raw line rest, rfl⟩
    rw [pieces_eq_map] at atInside
    have one (expression : Expression) (member : expression ∈ args) (values : List Node)
        {tokens rest : List Token} (position skipped : Nat) (stands : Stands expression.lexemes tokens)
        (ends : EndsPart rest) (enough : tokens.length + rest.length < rounds) :
        ∃ value : Node, value.withoutLines = expression.node ∧
          Repeats step values ⟨tokens ++ rest, none, position, skipped⟩ (value :: values)
            ⟨rest, none, position + tokens.length, skipped⟩ := by
      obtain ⟨node, same, read⟩ := reads.expression expression (nesting_lt_of_mem small member)
        position skipped stands ends.1 enough
      refine ⟨node, same, ?_⟩
      obtain ⟨next, behind, rfl, continues⟩ := ends.1.exists_continues
      obtain ⟨token, others, whole, opens⟩ := expression.showsLead behind stands continues.weaken
      rw [whole] at read ⊢
      refine .one (loop.reads values (opens.mono expression.leads_subset) read) ?_
      rw [← whole]
      simpa using expression.length_pos_of_stands stands
    obtain ⟨found, same, repeats⟩ := repeats_separated rounds lexemes Node.withoutLines node loop.passes args
      one [] position skipped atInside closes (by simp only [List.length_cons]; omega)
    refine ⟨found, by rw [same, nodes_eq_map], ?_⟩
    rw [isLoop]
    have ends := loop.closes (found.reverse ++ []) raw line rest (position + inside.length) skipped
    have run : repeatStep step rounds [] _ = _ :=
      repeats.repeatStep_run ends (by simp only [List.length_append, List.length_cons]; omega)
    simpa [Nat.add_assoc] using map_run (f := List.reverse) run

/-- A round of the loop over an array reads an item as its tree. -/
def ReadsItem (rounds : Nat) (step : List (ArrayItem Node) → Parse (List (ArrayItem Node) × Bool))
    (item : ItemOf Expression) : Prop :=
  ∀ (values : List (ArrayItem Node)) ⦃tokens rest : List Token⦄ (position skipped : Nat),
    Stands (itemLexemes item) tokens → EndsPart rest → tokens.length + rest.length < rounds →
    ∃ value : ArrayItem Node, Node.itemWithoutLines value = itemNode item ∧
      Repeats step values ⟨tokens ++ rest, none, position, skipped⟩ (value :: values)
        ⟨rest, none, position + tokens.length, skipped⟩

section Items

variable {close : Punctuator} {step : List (ArrayItem Node) → Parse (List (ArrayItem Node) × Bool)}

theorem InnerReads.item_unkeyed (reads : InnerReads rounds inner depth) (loop : ArrayStep inner close step)
    (value : Expression) (small : value.nesting < depth) : ReadsItem rounds step (.unkeyed value) := by
  intro values tokens rest position skipped stands ends enough
  obtain ⟨next, behind, rfl, continues⟩ := ends.1.exists_continues
  obtain ⟨node, same, read⟩ := reads.expression value small position skipped stands ends.1 enough
  obtain ⟨token, others, whole, opens⟩ := value.showsLead behind stands continues.weaken
  have shorter := value.length_pos_of_stands stands
  refine ⟨{ key := none, value := some node, mark := { line := node.line } }, ?_, .one ?_ ?_⟩
  · simp [Node.itemWithoutLines, Node.partWithoutLines, itemNode, same, Mark.withoutLine]
  · rw [whole] at read ⊢
    exact loop.unkeyed values (opens.mono value.leads_subset) continues.isRead ends.2 read
  · simpa using shorter

theorem InnerReads.item_spread (reads : InnerReads rounds inner depth) (loop : ArrayStep inner close step)
    (value : Expression) (small : value.nesting < depth) : ReadsItem rounds step (.spread value) := by
  intro values _ rest position skipped stands ends enough
  obtain ⟨next, behind, rfl, continues⟩ := ends.1.exists_continues
  cases stands with
  | cons raw line stands =>
    rename_i tokens
    simp only [List.length_cons] at enough
    obtain ⟨node, same, read⟩ := reads.expression value small (position + 1) skipped stands ends.1
      (by simp only [List.length_cons]; omega)
    obtain ⟨token, others, whole, opens⟩ := value.showsLead behind stands continues.weaken
    refine ⟨{ key := none, value := some node, unpack := true, mark := { line := node.line } }, ?_,
      .one ?_ ?_⟩
    · simp [Node.itemWithoutLines, Node.partWithoutLines, itemNode, same, Mark.withoutLine]
    · rw [List.cons_append]
      rw [whole] at read ⊢
      have run := loop.spread values raw line (opens.mono value.leads_subset) continues.isRead ends.2 read
      simpa [Nat.add_assoc, Nat.add_comm 1] using run
    · simp only [List.length_cons, List.length_append]
      omega

theorem InnerReads.item_keyed (reads : InnerReads rounds inner depth) (loop : ArrayStep inner close step)
    (key value : Expression) (smallKey : key.nesting < depth) (smallValue : value.nesting < depth) :
    ReadsItem rounds step (.keyed key value) := by
  intro values _ rest position skipped stands ends enough
  obtain ⟨next, behind, rfl, continues⟩ := ends.1.exists_continues
  obtain ⟨front, back, rfl, atKey, behindKey⟩ := stands.exists_append
  cases behindKey with
  | cons raw line atValue =>
    rename_i back
    simp only [List.length_append, List.length_cons] at enough
    have arrow : Follows ((Lexeme.sign .doubleArrow).token raw line :: (back ++ next :: behind)) :=
      .intro .doubleArrow rfl raw line _
    obtain ⟨keyNode, sameKey, readKey⟩ := reads.expression key smallKey position skipped atKey arrow
      (by simp only [List.length_cons, List.length_append]; omega)
    obtain ⟨valueNode, sameValue, readValue⟩ := reads.expression value smallValue
      (position + front.length + 1) skipped atValue ends.1 (by simp only [List.length_cons]; omega)
    obtain ⟨token, others, whole, opens⟩ := key.showsLead (back ++ next :: behind) atKey
      (continues_doubleArrow raw line true)
    obtain ⟨valueToken, valueOthers, wholeValue, opensValue⟩ :=
      value.showsLead behind atValue continues.weaken
    refine ⟨{ key := some keyNode, value := some valueNode, mark := { line := keyNode.line } }, ?_,
      .one ?_ ?_⟩
    · simp [Node.itemWithoutLines, Node.partWithoutLines, itemNode, sameKey, sameValue, Mark.withoutLine]
    · rw [List.append_assoc, List.cons_append]
      rw [wholeValue] at readKey readValue whole ⊢
      rw [whole] at readKey ⊢
      have run := loop.keyed values raw line (opens.mono key.leads_subset) readKey
        (opensValue.mono value.leads_subset) readValue
      simpa [Nat.add_assoc, Nat.add_comm 1] using run
    · simp
      omega

/-- The doc comment before a key is noted at the key, which alone takes it. -/
theorem InnerReads.item_documented (reads : InnerReads rounds inner depth) (loop : ArrayStep inner close step)
    (doc : DocBody) (key : String) (value : Expression) (small : value.nesting < depth) :
    ReadsItem rounds step (.documented doc key value) := by
  intro values _ rest position skipped stands ends enough
  obtain ⟨next, behind, rfl, continues⟩ := ends.1.exists_continues
  cases stands with
  | cons docRaw docLine stands =>
    cases stands with
    | cons keyRaw keyLine stands =>
      cases stands with
      | cons raw line atValue =>
        rename_i back
        simp only [List.length_cons] at enough
        have arrow : Follows ((Lexeme.sign .doubleArrow).token raw line :: (back ++ next :: behind)) :=
          .intro .doubleArrow rfl raw line _
        have readKey := reads.key (by omega) key (some doc.text) keyRaw keyLine (position + 1) skipped arrow
          (by simp only [List.length_cons, List.length_append]; omega)
        obtain ⟨valueNode, sameValue, readValue⟩ := reads.expression value small (position + 3) skipped
          atValue ends.1 (by simp only [List.length_cons]; omega)
        obtain ⟨valueToken, valueOthers, wholeValue, opensValue⟩ :=
          value.showsLead behind atValue continues.weaken
        refine ⟨⟨some (.string key false { line := keyLine, doc := some doc.text }), some valueNode,
          false, false, { line := keyLine }⟩, ?_, .one ?_ ?_⟩
        · simp [Node.itemWithoutLines, Node.partWithoutLines, Node.withoutLines, itemNode, sameValue,
            Mark.withoutLine]
        · simp only [List.cons_append, loop.notes, List.length_cons]
          rw [wholeValue] at readKey readValue ⊢
          rw [show position + (back.length + 1 + 1 + 1) = position + 3 + back.length by omega]
          exact loop.keyed values raw line (opens_of_kind _ leadSigns (.inr (.inl rfl))) readKey
            (opensValue.mono value.leads_subset) readValue
        · simp
          omega

theorem InnerReads.item (reads : InnerReads rounds inner depth) (loop : ArrayStep inner close step)
    (item : ItemOf Expression) (small : itemNesting item ≤ depth) : ReadsItem rounds step item := by
  cases item with
  | unkeyed value => exact reads.item_unkeyed loop value small
  | spread value => exact reads.item_spread loop value small
  | keyed key value =>
    simp only [itemNesting] at small
    exact reads.item_keyed loop key value (by omega) (by omega)
  | documented doc key value => exact reads.item_documented loop doc key value small

end Items

theorem InnerReads.array (reads : InnerReads rounds inner depth) {close : Punctuator}
    (closes : close = .closeBracket ∨ close = .closeParen) (mark : Mark)
    (items : List (ItemOf Expression)) (small : itemsNesting items ≤ depth) {tokens : List Token}
    (rest : List Token) (position skipped : Nat)
    (stands : Stands (separated (itemPieces items) ++ [.sign close]) tokens)
    (enough : tokens.length + rest.length < rounds) :
    ∃ found : List (ArrayItem Node), found.map Node.itemWithoutLines = itemNodes items ∧
      Parse.array rounds inner close.text mark ⟨tokens ++ rest, none, position, skipped⟩ =
        .ok (.array found mark, ⟨rest, none, position + tokens.length, skipped⟩) := by
  obtain ⟨step, isLoop, loop⟩ := exists_arrayStep rounds inner closes mark
  obtain ⟨inside, closing, rfl, atInside, atClosing⟩ := stands.exists_append
  cases atClosing with
  | cons raw line atEnd =>
    cases atEnd
    simp only [List.length_append, List.length_singleton] at enough
    have ends : EndsPart ((Lexeme.sign close).token raw line :: rest) := by
      rcases closes with rfl | rfl <;> exact ⟨.intro _ rfl raw line rest, rfl⟩
    rw [itemPieces_eq_map] at atInside
    obtain ⟨found, same, repeats⟩ := repeats_separated rounds itemLexemes Node.itemWithoutLines itemNode
      loop.passes items (fun item member values _ _ position skipped stands ends enough =>
        reads.item loop item (itemNesting_le_of_mem small member) values position skipped stands ends enough)
      [] position skipped atInside ends (by simp only [List.length_cons]; omega)
    refine ⟨found, by rw [same, itemNodes_eq_map], ?_⟩
    rw [isLoop]
    have closed := loop.closes (found.reverse ++ []) raw line rest (position + inside.length) skipped
    have run : repeatStep step rounds [] _ = _ :=
      repeats.repeatStep_run closed (by simp only [List.length_append, List.length_cons]; omega)
    simpa [Nat.add_assoc] using map_run (f := fun items => Node.array items.reverse mark) run

end Parse

end FormHarvest
