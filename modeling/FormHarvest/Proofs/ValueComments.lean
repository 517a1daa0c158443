import FormHarvest.Extraction.Finding
import FormHarvest.Proofs.ParsedTrees
import FormHarvest.Proofs.ParserParts
import FormHarvest.Proofs.TwoRuns

namespace FormHarvest

/-! ### Which operand takes a comment -/

/-- The place once its comment is taken. -/
def Cursor.taken (place : Cursor) : Cursor := { place.settle with pendingDoc := none }

/-- At a place stand parentheses with one expression between them and nothing else. -/
def InParentheses (rounds : Nat) (inner : Inner) (place : Cursor) (node : Node) : Prop :=
  isSign place.ahead[0]? "(" = true ∧
    ∃ after, Parse.list rounds inner ")" [",", ";", "=>"] place.taken.advance.2 = .ok ([node], after)

/-- What is read at a place is an operand that takes a comment. The comment waits at the place where
the operand itself starts, behind an attribute, the word `static`, a reference sign or the sign of a
number. Around one expression parentheses take it only if that has none yet. -/
inductive TakesComment (rounds : Nat) (comment : String) : Nat → Cursor → Node → Prop
  | operand {depth : Nat} {place after : Cursor} {value : Node} : isSign place.ahead[0]? "#[" = false →
    Parse.primary rounds (Inner.ofDepth rounds depth) place = .ok (some value, after) →
    place.settle.pendingDoc = some comment →
    (∀ node, InParentheses rounds (Inner.ofDepth rounds depth) place node → node.doc = none) →
    TakesComment rounds comment (depth + 1) place value
  | inside {depth : Nat} {place : Cursor} {value : Node} :
    InParentheses rounds (Inner.ofDepth rounds depth) place value → value.doc = some comment →
    TakesComment rounds comment (depth + 1) place value
  | behindAttribute {depth : Nat} {place behind : Cursor} {value : Node} : isSign place.ahead[0]? "#[" = true →
    Parse.skipAttribute rounds place.taken = .ok ((), behind) →
    TakesComment rounds comment depth { behind with pendingDoc := place.settle.pendingDoc } value →
    TakesComment rounds comment (depth + 1) place value
  | behindStatic {depth : Nat} {place : Cursor} {value : Node} : isWordIn place.ahead[0]? ["static"] = true →
    isWordIn place.ahead[1]? ["function", "fn"] = true →
    TakesComment rounds comment (depth + 1) place.advance.2 value →
    TakesComment rounds comment (depth + 1) place value
  | behindReference {depth : Nat} {place : Cursor} {value : Node} : isSign place.ahead[0]? "&" = true →
    TakesComment rounds comment depth place.advance.2 value →
    TakesComment rounds comment (depth + 1) place value
  | signed {depth : Nat} {place : Cursor} {token : Token} {value : NumberValue} {raw : String} {mark : Mark} :
    place.ahead[0]? = some token → token.kind = .operator → token.text ∈ ["-", "+"] →
    TakesComment rounds comment depth place.advance.2 (.number value raw mark) →
    TakesComment rounds comment (depth + 1) place (Parse.prefixed token (some (.number value raw mark)))

/-! ### Runs from a place -/

namespace Cursor

@[simp] theorem settle_advance (place : Cursor) : place.settle.advance = place.advance := by
  rw [advance, settle_settle, advance]

@[simp] theorem taken_settle (place : Cursor) : place.settle.taken = place.taken := by
  rw [taken, settle_settle, taken]

end Cursor

theorem Node.doc_withDoc {node : Node} (isNode : node.isSourceUnit = false) (doc : Option String) :
    (node.withDoc doc).doc = doc := by
  cases node with
  | sourceUnit => cases isNode
  | _ => rfl

namespace Parse

variable {α β : Type}

/-- When a parser succeeds at a place, its result is as the condition says. -/
def GivesAt (parse : Parse α) (place : Cursor) (post : α → Prop) : Prop :=
  ∀ a after, parse place = .ok (a, after) → post a

namespace GivesAt

variable {place : Cursor} {post : α → Prop}

theorem pure {a : α} (holds : post a) : (Pure.pure a : Parse α).GivesAt place post :=
  Gives.pure holds place

theorem bind {parse : Parse β} {next : β → Parse α}
    (second : ∀ b middle, parse place = .ok (b, middle) → (next b).GivesAt middle post) :
    (parse >>= next).GivesAt place post := by
  intro a after run
  cases step : parse place with
  | error fault => simp [Bind.bind, StateT.bind, Except.bind, step] at run
  | ok result =>
    obtain ⟨b, middle⟩ := result
    simp only [Bind.bind, StateT.bind, Except.bind, step] at run
    exact second b middle step a after run

theorem ite {condition : Prop} [Decidable condition] {first second : Parse α}
    (whenTrue : condition → first.GivesAt place post) (whenFalse : ¬condition → second.GivesAt place post) :
    (if condition then first else second).GivesAt place post := by
  split
  · exact whenTrue ‹_›
  · exact whenFalse ‹_›

theorem peek {n : Nat} {next : Option Token → Parse α}
    (second : (next place.ahead[n - 1]?).GivesAt place.settle post) : (Parse.peek n >>= next).GivesAt place post := by
  refine bind fun token middle run => ?_
  cases run
  rwa [Cursor.ahead?_settle]

theorem advance {next : Option Token → Parse α}
    (second : (next place.advance.1).GivesAt place.advance.2 post) : (Parse.advance >>= next).GivesAt place post := by
  refine bind fun token middle run => ?_
  obtain ⟨rfl, rfl⟩ : place.advance.1 = token ∧ place.advance.2 = middle := by
    simpa [Parse.advance, Prod.ext_iff] using run
  exact second

theorem takeDoc {next : Option String → Parse α}
    (second : (next place.settle.pendingDoc).GivesAt place.taken post) :
    (Parse.takeDoc >>= next).GivesAt place post := by
  refine bind fun doc middle run => ?_
  cases run
  exact second

end GivesAt

/-! ### What the parsers put on their nodes -/

variable {rounds : Nat} {inner : Inner}

theorem array_doc (close : String) (mark : Mark) :
    (array rounds inner close mark).Gives fun node => node.doc = mark.doc := by
  rw [array_eq, map_eq_pure_bind]
  exact .after fun _ => .pure rfl

theorem closureEnd_doc (arrow : Bool) (parameters : List Node) (mark : Mark) :
    (closureEnd rounds inner arrow parameters mark).Gives fun node => node.doc = mark.doc := by
  unfold closureEnd
  refine .after fun _ => ?_
  extract_lets behindBody behindType
  have atBody (body : List Node) : (behindBody body).Gives fun node => node.doc = mark.doc := .pure rfl
  have atType : (behindType ()).Gives fun node => node.doc = mark.doc := by
    refine .ite (fun _ => .after fun _ => .ite (fun _ => ?_) fun _ => ?_) fun _ => ?_
    · exact .after fun body => .known (atBody _)
    · exact .known (atBody [])
    · exact .after atBody
  exact .ite (fun _ => .after fun _ => atType) fun _ => atType

theorem closure_doc (doc : Option String) : (closure rounds inner doc).Gives fun node => node.doc = doc := by
  unfold closure
  refine .after fun keyword => ?_
  extract_lets line arrow behindParameters
  refine .after fun _ => .after fun _ => ?_
  have atParameters (parameters : List Node) : (behindParameters parameters).Gives fun node => node.doc = doc := by
    have ends : (closureEnd rounds inner arrow parameters { line, doc }).Gives fun node => node.doc = doc :=
      closureEnd_doc arrow parameters { line, doc }
    exact .after fun _ => .after fun _ =>
      .ite (fun _ => .after fun _ => .after fun _ => .after fun _ => ends) fun _ => ends
  refine .ite (fun _ => ?_) fun _ => ?_
  · exact .after atParameters
  · exact .known (atParameters [])

theorem creation_doc (doc : Option String) : (creation rounds inner doc).Gives fun node => node.doc = doc := by
  unfold creation
  refine .after fun keyword => ?_
  extract_lets line behindClass
  refine .after fun _ => .ite (fun _ => ?_) fun _ => ?_
  · exact .after fun _ => .after fun _ => .after fun _ => .after fun _ => .pure rfl
  have atClass (className : String) : (behindClass className).Gives fun node => node.doc = doc :=
    .after fun _ => .pure rfl
  refine .after fun _ => .ite (fun _ => ?_) fun _ => .ite (fun _ => ?_) fun _ => .ite (fun _ => ?_) fun _ => ?_
  · exact .after fun _ => .known (atClass _)
  · exact .after fun _ => .after atClass
  · exact .after fun _ => .known (atClass _)
  · exact .known (atClass _)

theorem staticAccess_doc (className : String) (mark : Mark) :
    (staticAccess rounds inner className mark).Gives fun node => node.doc = mark.doc := by
  refine .after fun _ => .after fun member => ?_
  cases member with
  | none => exact .pure rfl
  | some member =>
    dsimp only
    split
    · exact .after fun _ => .after fun _ => .ite (fun _ => .after fun _ => .pure rfl) fun _ => .pure rfl
    · exact .after fun _ => .pure rfl
    · exact .after fun _ => .ite (fun _ => .after fun _ => .pure rfl) fun _ => .pure rfl

theorem named_doc (token : Token) (next : Option Token) (mark : Mark) :
    (named rounds inner token next mark).Gives fun node => node.doc = mark.doc :=
  .after fun _ => .ite (fun _ => .after fun _ => .pure rfl) fun _ =>
    .ite (fun _ => staticAccess_doc _ mark) fun _ => .pure rfl

theorem namedOperand_doc (token : Token) (next : Option Token) (mark : Mark) :
    (namedOperand rounds inner token next mark.doc mark).Gives fun found => ∀ value ∈ found, value.doc = mark.doc := by
  have here {node : Node} (documented : node.doc = mark.doc) :
      (Pure.pure (some node) : Parse (Option Node)).Gives fun found => ∀ value ∈ found, value.doc = mark.doc :=
    .pure (by simpa using documented)
  unfold namedOperand
  refine .ite (fun _ => ?_) fun _ => .ite (fun _ => ?_) fun _ => .ite (fun _ => ?_) fun _ =>
    .ite (fun _ => ?_) fun _ => ?_
  · exact .after fun _ => .after fun _ => .bind (array_doc ")" mark) fun node documented => here documented
  · exact .bind (closure_doc mark.doc) fun node documented => here documented
  · exact .bind (creation_doc mark.doc) fun node documented => here documented
  · refine .after fun _ => .after fun _ => .after fun subject => .after fun _ => .ite (fun _ => ?_) fun _ => ?_
    · exact .after fun _ => here rfl
    · exact .known (here rfl)
  · exact .bind (named_doc token next mark) fun node documented => here documented

/-- What comes of a node is the node itself, or is built around it and has no comment. -/
def Kept (node made : Node) : Prop := made = node ∨ made.doc = none

theorem Kept.trans {node made last : Node} (first : Kept node made) (second : Kept made last) : Kept node last := by
  rcases second with rfl | bare
  · exact first
  · exact .inr bare

theorem member_kept (node : Node) : (member rounds inner node).Gives fun result => Kept node result.1 := by
  refine .after fun _ => .after fun found => ?_
  cases found with
  | none => exact .pure (.inl rfl)
  | some found =>
    have built (name : String) (line : Int) : Gives (do
        if isSign (← peek) "(" then
          return (.methodCall node name (← arguments rounds inner) { line }, true)
        else return (.property node name { line }, true))
        fun result => Kept node result.1 :=
      .after fun _ => .ite (fun _ => .after fun _ => .pure (.inr rfl)) fun _ => .pure (.inr rfl)
    dsimp only
    split
    · exact .after fun _ => .known (built _ _)
    · exact .after fun _ => .known (built _ _)
    · refine .after fun _ => .ite (fun _ => .after fun _ => .known (built _ _)) fun _ => ?_
      exact .known (.pure (.inl rfl))

theorem staticMember_kept (node : Node) : (staticMember rounds inner node).Gives fun result => Kept node result.1 := by
  refine .after fun _ => .after fun found => ?_
  cases found with
  | none => exact .pure (.inl rfl)
  | some found =>
    dsimp only
    split
    · refine .after fun _ => .after fun _ => ?_
      exact .ite (fun _ => .after fun _ => .pure (.inr rfl)) fun _ => .pure (.inr rfl)
    · exact .after fun _ => .pure (.inr rfl)
    · exact .pure (.inl rfl)

theorem postfixStep_kept (node : Node) : (postfixStep rounds inner node).Gives fun result => Kept node result.1 := by
  refine .after fun token => ?_
  cases token with
  | none => exact .pure (.inl rfl)
  | some token =>
    refine .ite (fun _ => member_kept node) fun _ => .ite (fun _ => staticMember_kept node) fun _ =>
      .ite (fun _ => .after fun _ => .after fun _ => .pure (.inr rfl)) fun _ =>
      .ite (fun _ => .after fun _ => .pure (.inr rfl)) fun _ =>
      .ite (fun _ => .after fun _ => .pure (.inr rfl)) fun _ => .pure (.inl rfl)

theorem postfixes_kept (node : Node) : (postfixes rounds inner node).Gives (Kept node) := by
  rw [postfixes_eq]
  refine .repeatStep (fun made before cursor result after run => ?_) (.inl rfl)
  exact before.trans (postfixStep_kept made cursor result after run)

theorem choice_doc (node : Node) : (choice inner node).Gives fun made => made.doc = none := by
  refine .after fun _ => .after fun _ => .ite (fun _ => .after fun _ => .pure rfl) fun _ => ?_
  exact .after fun _ => .after fun _ => .ite (fun _ => .after fun _ => .pure rfl) fun _ => .known (.pure rfl)

theorem expressionStep_kept (least : Nat) (node : Node) :
    (expressionStep inner least node).Gives fun result => Kept node result.1 := by
  refine .after fun token => ?_
  cases token with
  | none => exact .pure (.inl rfl)
  | some token =>
    refine .ite (fun _ => .ite (fun _ => .pure (.inl rfl)) fun _ => ?_) fun _ =>
      .ite (fun _ => .ite (fun _ => .pure (.inl rfl)) fun _ => ?_) fun _ => ?_
    · exact .after fun _ => .after fun _ => .after fun _ => .pure (.inr rfl)
    · exact .bind (choice_doc node) fun made none => .pure (.inr none)
    · split
      · exact .pure (.inl rfl)
      · exact .ite (fun _ => .pure (.inl rfl)) fun _ => .after fun _ => .after fun _ => .pure (.inr rfl)

theorem operators_kept (least : Nat) (node : Node) :
    (repeatStep (expressionStep inner least) rounds node).Gives (Kept node) := by
  refine .repeatStep (fun made before cursor result after run => ?_) (.inl rfl)
  exact before.trans (expressionStep_kept least made cursor result after run)

/-- How an operand without prefixes comes by its comment. Behind an attribute it is read for the comment
that waits before that. Else it has the comment that waits where it starts, unless it is an expression
in parentheses with a comment of its own. -/
inductive FoundAt (rounds : Nat) (inner : Inner) (place : Cursor) (value : Node) : Prop
  | behindAttribute {behind after : Cursor} : isSign place.ahead[0]? "#[" = true →
    skipAttribute rounds place.taken = .ok ((), behind) →
    inner.unary { behind with pendingDoc := place.settle.pendingDoc } = .ok (some value, after) →
    FoundAt rounds inner place value
  | bare : isSign place.ahead[0]? "#[" = false → value.doc = place.settle.pendingDoc →
    (∀ node, ¬InParentheses rounds inner place node) → FoundAt rounds inner place value
  | inParentheses {node : Node} : isSign place.ahead[0]? "#[" = false → InParentheses rounds inner place node →
    value = (if node.doc.isNone then node.withDoc place.settle.pendingDoc else node) →
    FoundAt rounds inner place value

section FoundAt

variable {place : Cursor} {token : Token} {value : Node}

theorem not_inParentheses (next : place.ahead[0]? = some token) (noParenthesis : isSign (some token) "(" = false)
    (node : Node) : ¬InParentheses rounds inner place node := by
  intro inside
  rw [InParentheses, next, noParenthesis] at inside
  cases inside.1

theorem FoundAt.of_kind (next : place.ahead[0]? = some token)
    (kind : token.kind ≠ .punctuation ∧ token.kind ≠ .operator) (documented : value.doc = place.settle.pendingDoc) :
    FoundAt rounds inner place value := by
  have noSign (text : String) : isSign (some token) text = false := by simp [isSign, kind]
  exact .bare (next ▸ noSign "#[") documented (not_inParentheses next (noSign "("))

theorem signOperand_givesAt (next : place.ahead[0]? = some token) (kind : TokenKind) (line : Int) :
    (signOperand rounds inner token kind place.settle.pendingDoc
      { line, doc := place.settle.pendingDoc }).GivesAt place.taken fun found =>
        ∀ value ∈ found, FoundAt rounds inner place value := by
  refine .ite (fun bracket => ?_) fun _ => .ite (fun parenthesis => ?_) fun noParenthesis =>
    .ite (fun hash => ?_) fun noHash => .ite (fun dollar => ?_) fun _ => ?_
  · have noAttribute := isSign_eq_false_of_isSign (show "[" ≠ "#[" by decide) bracket
    have noParenthesis := isSign_eq_false_of_isSign (show "[" ≠ "(" by decide) bracket
    refine .advance (.bind fun node middle run => .pure ?_)
    rintro _ ⟨⟩
    exact .bare (next ▸ noAttribute) (array_doc "]" _ _ node middle run) (not_inParentheses next noParenthesis)
  · have noAttribute := isSign_eq_false_of_isSign (show "(" ≠ "#[" by decide) parenthesis
    refine .advance (.bind fun inside middle run => ?_)
    split
    · rename_i node
      refine .pure ?_
      rintro _ ⟨⟩
      exact .inParentheses (next ▸ noAttribute) ⟨next ▸ parenthesis, middle, run⟩ rfl
    · rename_i several
      refine .pure ?_
      rintro _ ⟨⟩
      refine .bare (next ▸ noAttribute) rfl fun node => ?_
      rintro ⟨-, after, other⟩
      exact several node (congrArg Prod.fst (Except.ok.inj (run.symm.trans other)))
  · refine .bind fun _ behind skipped => .bind fun _ middle set => ?_
    cases set
    rintro found after run value rfl
    exact .behindAttribute (next ▸ hash) skipped run
  · refine .advance (.bind fun node middle run => .pure ?_)
    rintro _ ⟨⟩
    exact .bare (next ▸ by simpa using noHash) rfl (not_inParentheses next (by simpa using noParenthesis))
  · exact .bind fun _ _ _ => .pure nofun

theorem primary_givesAt (place : Cursor) :
    (primary rounds inner).GivesAt place fun found => ∀ value ∈ found, FoundAt rounds inner place value := by
  refine .peek ?_
  rw [Nat.sub_self]
  cases next : place.ahead[0]? with
  | none => exact .pure nofun
  | some token =>
    refine .takeDoc ?_
    rw [Cursor.settle_settle, Cursor.taken_settle]
    extract_lets mark word
    have documented {made : Node} (kind : token.kind ≠ .punctuation ∧ token.kind ≠ .operator)
        (same : made.doc = mark.doc) : ∀ value ∈ some made, FoundAt rounds inner place value := by
      rintro _ ⟨⟩
      exact .of_kind next kind same
    split
    · rename_i kind
      exact .advance (.pure (documented (by simp [kind]) rfl))
    · rename_i kind
      exact .advance (.pure (documented (by simp [kind]) rfl))
    · rename_i kind
      exact .advance (.pure (documented (by simp [kind]) rfl))
    · rename_i kind
      refine .peek fun found after run value isValue => .of_kind next (by simp [kind]) ?_
      exact namedOperand_doc token _ mark _ found after run value isValue
    · exact signOperand_givesAt next token.kind token.line

end FoundAt

/-- The sign of a number keeps its comment. -/
theorem doc_prefixed {token : Token} {value : NumberValue} {raw : String} {mark : Mark}
    (sign : token.text ∈ ["-", "+"]) : (prefixed token (some (.number value raw mark))).doc = mark.doc := by
  simp only [List.mem_cons, List.not_mem_nil, or_false] at sign
  unfold prefixed
  split
  · rename_i same
    cases same
    rfl
  · rename_i same
    cases same
    rfl
  · rename_i noMinus noPlus
    exact (sign.elim (noMinus value raw mark · rfl) (noPlus value raw mark · rfl)).elim

theorem exists_number_of_doc {token : Token} {operand : Option Node} {comment : String}
    (documented : (prefixed token operand).doc = some comment) :
    token.text ∈ ["-", "+"] ∧ ∃ value raw mark, operand = some (.number value raw mark) := by
  unfold prefixed at documented
  split at documented
  · rename_i minus
    exact ⟨by simp [minus], _, _, _, rfl⟩
  · rename_i plus
    exact ⟨by simp [plus], _, _, _, rfl⟩
  · cases documented

theorem operand_settle (place : Cursor) : operand rounds inner place.settle = operand rounds inner place := by
  have peek_settle : peek 1 place.settle = peek 1 place := by
    simp only [peek, Cursor.settle_settle]
  have primary_settle : primary rounds inner place.settle = primary rounds inner place := by
    simp only [primary, Bind.bind, StateT.bind, peek_settle]
  simp only [operand, Bind.bind, StateT.bind, primary_settle]

end Parse

/-! ### Operands that take a comment -/

variable {rounds depth : Nat} {comment : String} {place : Cursor} {value : Node}

theorem isSourceUnit_of_inParentheses
    (alone : InParentheses rounds (Inner.ofDepth rounds depth) place value) : value.isSourceUnit = false := by
  obtain ⟨-, after, run⟩ := alone
  have unitless := Parse.list_unitless (Inner.ofDepth_unitless rounds depth) _ _ _ _ _ run
  simp at unitless
  exact unitless.1

theorem InParentheses.unique {inner : Inner} {node other : Node} (first : InParentheses rounds inner place node)
    (second : InParentheses rounds inner place other) : node = other := by
  obtain ⟨-, after, run⟩ := first
  obtain ⟨-, behind, again⟩ := second
  have same : [node] = [other] := congrArg Prod.fst (Except.ok.inj (run.symm.trans again))
  exact (List.cons.inj same).1

/-- An operand that takes a comment has it. -/
theorem TakesComment.doc_eq (takes : TakesComment rounds comment depth place value) : value.doc = some comment := by
  induction takes with
  | @operand depth place after value noAttribute run pending apart =>
    cases Parse.primary_givesAt place _ after run value rfl with
    | behindAttribute isAttribute _ _ => cases noAttribute.symm.trans isAttribute
    | bare _ documented _ => rw [documented, pending]
    | @inParentheses node _ alone same =>
      have isNode := isSourceUnit_of_inParentheses alone
      rw [same, apart node alone, Option.isNone_none, if_pos rfl, Node.doc_withDoc isNode, pending]
  | inside _ documented => exact documented
  | behindAttribute _ _ _ ih => exact ih
  | behindStatic _ _ _ ih => exact ih
  | behindReference _ _ ih => exact ih
  | signed _ _ sign _ ih => exact (Parse.doc_prefixed sign).trans ih

theorem primary_takes (unary : ∀ place, (Inner.ofDepth rounds depth).unary.GivesAt place fun found =>
      ∀ value ∈ found, value.doc = some comment → TakesComment rounds comment depth place value) (place : Cursor) :
    (Parse.primary rounds (Inner.ofDepth rounds depth)).GivesAt place fun found =>
      ∀ value ∈ found, value.doc = some comment → TakesComment rounds comment (depth + 1) place value := by
  rintro found after run value rfl documented
  cases Parse.primary_givesAt place _ after run value rfl with
  | @behindAttribute behind ends isAttribute skipped operand =>
    exact .behindAttribute isAttribute skipped (unary _ _ ends operand value rfl documented)
  | bare noAttribute same apart =>
    exact .operand noAttribute run (same.symm.trans documented) fun node alone => absurd alone (apart node)
  | @inParentheses node noAttribute alone same =>
    cases own : node.doc with
    | none =>
      rw [own, Option.isNone_none, if_pos rfl] at same
      rw [same, Node.doc_withDoc (isSourceUnit_of_inParentheses alone)] at documented
      refine .operand noAttribute run documented fun other again => ?_
      rw [again.unique alone, own]
    | some doc =>
      rw [own, Option.isNone_some, if_neg Bool.false_ne_true] at same
      rw [same] at documented ⊢
      exact .inside alone documented

theorem operand_takes (unary : ∀ place, (Inner.ofDepth rounds depth).unary.GivesAt place fun found =>
      ∀ value ∈ found, value.doc = some comment → TakesComment rounds comment depth place value) (place : Cursor) :
    (Parse.operand rounds (Inner.ofDepth rounds depth)).GivesAt place fun found =>
      ∀ value ∈ found, value.doc = some comment → TakesComment rounds comment (depth + 1) place value := by
  refine .bind fun first middle atFirst => ?_
  cases first with
  | none => exact .pure nofun
  | some first =>
    refine .bind fun node after atNode => .pure fun value isValue documented => ?_
    obtain rfl : node = value := by simpa using isValue
    obtain rfl := (Parse.postfixes_kept first middle node after atNode).resolve_right (by simp [documented])
    exact primary_takes unary place _ middle atFirst node rfl documented

theorem unary_takes (depth : Nat) (place : Cursor) : (Inner.ofDepth rounds depth).unary.GivesAt place fun found =>
    ∀ value ∈ found, value.doc = some comment → TakesComment rounds comment depth place value := by
  induction depth generalizing place with
  | zero => exact Parse.Gives.tooDeep place
  | succ depth ih =>
    -- a cast, a word and a sign build a node of their own around the operand, without a comment
    have bare {kind : String} {operands : List Node} {line : Int} :
        (Pure.pure (some (.operation kind operands { line })) : Parse (Option Node)).Gives fun found =>
          ∀ value ∈ found, value.doc = some comment → TakesComment rounds comment (depth + 1) place value :=
      .pure fun value isValue documented => by
        obtain rfl : Node.operation kind operands { line } = value := by simpa using isValue
        cases documented
    show (Parse.unary rounds (Inner.ofDepth rounds depth)).GivesAt place _
    refine .peek ?_
    rw [Nat.sub_self]
    cases next : place.ahead[0]? with
    | none => exact .pure nofun
    | some token =>
      refine .ite (fun sign => ?_) fun _ => .ite (fun _ => ?_) fun _ => .ite (fun reference => ?_) fun _ =>
        .peek (.peek (.ite (fun _ => ?_) fun _ => .peek (.ite (fun _ => ?_) fun _ => .peek ?_)))
      · rw [Bool.and_eq_true, beq_iff_eq] at sign
        refine .advance (.bind fun operand middle run => .pure fun value isValue documented => ?_)
        rw [Cursor.settle_advance] at run
        obtain rfl : Parse.prefixed token operand = value := by simpa using isValue
        obtain ⟨isSigned, value', raw, mark, rfl⟩ := Parse.exists_number_of_doc documented
        rw [Parse.doc_prefixed isSigned] at documented
        exact .signed next sign.1 isSigned (ih _ _ middle run _ rfl documented)
      · exact .bind fun _ _ _ => .bind fun operand middle _ => bare middle
      · refine .advance fun found after run value isValue documented => ?_
        rw [Cursor.settle_advance] at run
        exact .behindReference (next ▸ reference) (ih _ found after run value isValue documented)
      · exact .bind fun _ _ _ => .bind fun _ _ _ => .bind fun _ _ _ => .bind fun operand middle _ => bare middle
      · extract_lets word behindWord
        have atOperand (place' : Cursor) : (behindWord ()).GivesAt place' fun found =>
            ∀ value ∈ found, value.doc = some comment → TakesComment rounds comment (depth + 1) place value :=
          .bind fun operand middle _ => bare middle
        exact .bind fun _ _ _ => .bind fun _ _ _ => .ite (fun _ => .bind fun _ _ _ => atOperand _) fun _ => atOperand _
      · simp only [Cursor.settle_settle, Cursor.ahead_settle]
        refine .ite (fun isStatic => .advance fun found after run value isValue documented => ?_) fun _ => ?_
        · rw [Bool.and_eq_true] at isStatic
          rw [Cursor.settle_advance] at run
          have behind := operand_takes ih _ found after run value isValue documented
          exact .behindStatic (next ▸ isStatic.1) isStatic.2 behind
        · intro found after run
          rw [Parse.operand_settle] at run
          exact operand_takes ih place found after run

theorem expression_takes (depth least : Nat) (place : Cursor) :
    ((Inner.ofDepth rounds depth).expression least).GivesAt place fun found =>
      ∀ value ∈ found, value.doc = some comment → TakesComment rounds comment depth place value := by
  cases depth with
  | zero => exact Parse.Gives.tooDeep place
  | succ depth =>
    show (Parse.expression rounds (Inner.ofDepth rounds depth) least).GivesAt place _
    rw [Parse.expression_eq]
    refine .bind fun first middle atFirst => ?_
    cases first with
    | none => exact .pure nofun
    | some first =>
      refine .bind fun node after atNode => .pure fun value isValue documented => ?_
      obtain rfl : node = value := by simpa using isValue
      obtain rfl := (Parse.operators_kept least first middle node after atNode).resolve_right (by simp [documented])
      exact unary_takes (depth + 1) place _ middle atFirst node rfl documented

/-! ### Values of items -/

/-- Where the value of an item begins that is read from a place: there if it has no key, else behind the
key, the arrow and a reference sign. -/
inductive ValueBegins (inner : Inner) (start : Cursor) : Option Node → Cursor → Prop
  | unkeyed : ValueBegins inner start none start
  | keyed {key : Node} {behindKey behindArrow place : Cursor} {byRef : Bool} :
    inner.expression 0 start = .ok (some key, behindKey) → Parse.takeSign "=>" behindKey = .ok (true, behindArrow) →
    Parse.takeSign "&" behindArrow = .ok (byRef, place) → ValueBegins inner start (some key) place

theorem ValueBegins.unique {inner : Inner} {start other : Cursor} {key : Option Node}
    (first : ValueBegins inner start key place) (second : ValueBegins inner start key other) : place = other := by
  cases first with
  | unkeyed =>
    cases second
    rfl
  | keyed atKey atArrow atSign =>
    cases second with
    | keyed atKey' atArrow' atSign' =>
      cases atKey.symm.trans atKey'
      cases atArrow.symm.trans atArrow'
      cases atSign.symm.trans atSign'
      rfl

/-- The value of every item that is read begins somewhere, and is read from there. -/
theorem exists_valueBegins {inner : Inner} {items : List (ArrayItem Node)} {item : ArrayItem Node}
    {unpack byRef : Bool} {start after : Cursor}
    (run : Parse.arrayItem inner items unpack byRef start = .ok ((item :: items, true), after)) :
    ∃ place behind, ValueBegins inner start item.key place ∧ inner.expression 0 place = .ok (item.value, behind) := by
  have runs : (Parse.arrayItem inner items unpack byRef).GivesAt start fun result =>
      result = (item :: items, true) →
        ∃ place behind, ValueBegins inner start item.key place ∧
          inner.expression 0 place = .ok (item.value, behind) := by
    refine .bind fun found middle atFirst => ?_
    cases found with
    | none =>
      refine .bind fun _ _ _ => .pure fun same => ?_
      have := congrArg (List.length ∘ Prod.fst) same
      simp at this
    | some first =>
      refine .bind fun arrow behindArrow atArrow => .ite (fun isKeyed => ?_) fun notKeyed => ?_
      · refine .bind fun byRef' place atSign => .bind fun value behind atValue => .pure fun same => ?_
        obtain rfl := (List.cons.inj (congrArg Prod.fst same)).1
        rw [isKeyed] at atArrow
        exact ⟨place, behind, .keyed atFirst atArrow atSign, atValue⟩
      · refine .pure fun same => ?_
        obtain rfl := (List.cons.inj (congrArg Prod.fst same)).1
        exact ⟨start, middle, .unkeyed, atFirst⟩
  exact runs _ after run rfl

/-- The value of an array item has a comment exactly if it is an operand that takes the comment. Then,
if the key has no comment, the tag in it that says so keeps a value from being reported. -/
theorem arrayItem_doc_iff {items : List (ArrayItem Node)} {item : ArrayItem Node} {unpack byRef : Bool}
    {start after : Cursor}
    (run : Parse.arrayItem (Inner.ofDepth rounds depth) items unpack byRef start = .ok ((item :: items, true), after))
    (begins : ValueBegins (Inner.ofDepth rounds depth) start item.key place) (isValue : item.value = some value) :
    (value.doc = some comment ↔ TakesComment rounds comment depth place value) ∧
    (TakesComment rounds comment depth place value → item.key.bind Node.doc = none →
      ∀ spot, .ignore ∈ (readDirectives (some comment) spot).1 → Finding.text? value = none →
        ∀ path, (Finding.ofItem path item).1 = .nothing) := by
  obtain ⟨other, behind, found, atValue⟩ := exists_valueBegins run
  rw [isValue, found.unique begins] at atValue
  refine ⟨⟨expression_takes depth 0 place _ behind atValue value rfl, TakesComment.doc_eq⟩, ?_⟩
  intro takes undocumented spot ignored noText path
  have docOf : Finding.docOf item = (some comment).filter (· != "") := by
    simp [Finding.docOf, undocumented, isValue, takes.doc_eq]
  have said (other : String) :
      (readDirectives (Finding.docOf item) other).1 = (readDirectives (some comment) spot).1 := by
    by_cases empty : comment = ""
    · rw [docOf, empty]
      rfl
    · rw [docOf, Option.filter_some_pos (by simpa using empty)]
      rfl
  have contained (other : String) : (readDirectives (Finding.docOf item) other).1.contains .ignore = true := by
    rw [said]
    exact List.contains_iff_mem.mpr ignored
  simp only [Finding.ofItem, isValue, Option.bind_some, noText, contained, Bool.true_or, if_true]

/-- The tokens of a key, an arrow and a variable with a comment in front of it. -/
def ignoredVariable : List Token := [
  { kind := .string, text := "label", raw := "'label'", line := 1, interpolated := false },
  { kind := .operator, text := "=>", raw := "=>", line := 1, interpolated := false },
  { kind := .docComment, text := "/** @Ignore */", raw := "/** @Ignore */", line := 1, interpolated := false },
  { kind := .variable, text := "label", raw := "$label", line := 1, interpolated := false }]

theorem ignoredVariable_takes_comment : ∃ item value place after,
    Parse.arrayItem (Inner.ofDepth 5 2) [] false false { rest := ignoredVariable } = .ok (([item], true), after) ∧
    ValueBegins (Inner.ofDepth 5 2) { rest := ignoredVariable } item.key place ∧ item.value = some value ∧
    value.doc = some "/** @Ignore */" ∧ TakesComment 5 "/** @Ignore */" 2 place value ∧
    (Finding.ofItem "T.php" item).1 = .nothing := by
  have checked : (Parse.arrayItem (Inner.ofDepth 5 2) [] false false { rest := ignoredVariable }).toOption.any
      (fun result => decide (result.1.2 = true ∧ result.1.1.length = 1 ∧ ∀ item ∈ result.1.1,
        item.key.bind Node.doc = none ∧ item.value.isSome = true ∧
          item.value.bind Node.doc = some "/** @Ignore */" ∧ item.value.bind Finding.text? = none)) = true := by
    decide +kernel
  have ignored : .ignore ∈ (readDirectives (some "/** @Ignore */") "").1 := by
    decide +kernel
  cases run : Parse.arrayItem (Inner.ofDepth 5 2) [] false false { rest := ignoredVariable } with
  | error fault =>
    rw [run] at checked
    cases checked
  | ok result =>
    rw [run] at checked
    obtain ⟨⟨items, more⟩, after⟩ := result
    obtain ⟨rfl, one, all⟩ := of_decide_eq_true (show decide _ = true from checked)
    obtain ⟨item, rfl⟩ := List.length_eq_one_iff.mp one
    obtain ⟨undocumented, filled, documented, noText⟩ := all item List.mem_cons_self
    obtain ⟨value, isValue⟩ := Option.isSome_iff_exists.mp filled
    obtain ⟨place, -, begins, -⟩ := exists_valueBegins run
    rw [isValue] at documented noText
    have taken := (arrayItem_doc_iff run begins isValue).1.mp documented
    have ignores := (arrayItem_doc_iff run begins isValue).2 taken
    exact ⟨item, value, place, after, rfl, begins, isValue, documented, taken,
      ignores undocumented "" ignored noText "T.php"⟩

/-- A source in which a comment stands before a method call. -/
def ignoredCall : String := "<?php $x = ['label' => /** @Ignore */ $this->computeLabel()];"

/-- The comment before a method call is taken by the variable in it, and the call is reported. -/
theorem ignoredCall_is_reported : ∃ unit log item, parseSource "T.php" ignoredCall = .ok (unit, log) ∧
    .item item ∈ walk unit.nodes ∧ item.key.bind Node.doc = none ∧ item.value.bind Node.doc = none ∧
    (Finding.ofItem "T.php" item).1 = .diagnostic (Diagnostic.unreadable "T.php" 1 "MethodCall") := by
  have checked : (parseSource "T.php" ignoredCall).toOption.any (fun parsed => (walk parsed.1.nodes).any fun
      | .item item => decide (item.key.bind Node.doc = none ∧ item.value.bind Node.doc = none ∧
          (Finding.ofItem "T.php" item).1 = .diagnostic (Diagnostic.unreadable "T.php" 1 "MethodCall"))
      | _ => false) = true := by
    decide +kernel
  cases parsed : parseSource "T.php" ignoredCall with
  | error fault =>
    rw [parsed] at checked
    cases checked
  | ok result =>
    rw [parsed] at checked
    obtain ⟨node, member, found⟩ := List.any_eq_true.mp (show (walk result.1.nodes).any _ = true from checked)
    match node with
    | .item item => exact ⟨result.1, result.2, item, rfl, member, of_decide_eq_true found⟩

end FormHarvest
