import FormHarvest.Proofs.Forest
import FormHarvest.Proofs.ParserParts
import Mathlib.Tactic.Tauto

namespace FormHarvest

/-- No source unit stands in the trees. -/
def Unitless (nodes : List Node) : Prop := ∀ node ∈ walk nodes, node.isSourceUnit = false

namespace Unitless

@[simp] theorem nil : Unitless [] := by simp [Unitless]

@[simp] theorem cons {node : Node} {rest : List Node} :
    Unitless (node :: rest) ↔ node.isSourceUnit = false ∧ Unitless node.children ∧ Unitless rest := by
  simp only [Unitless, walk_cons, List.forall_mem_cons, List.forall_mem_append]

@[simp] theorem append {first second : List Node} :
    Unitless (first ++ second) ↔ Unitless first ∧ Unitless second := by
  simp only [Unitless, walk_append, List.forall_mem_append]

@[simp] theorem reverse {nodes : List Node} : Unitless nodes.reverse ↔ Unitless nodes := by
  induction nodes with
  | nil => rfl
  | cons first rest ih => simp only [List.reverse_cons, append, ih, cons, nil, and_true]; tauto

@[simp] theorem children_withDoc (doc : Option String) (node : Node) :
    Unitless (node.withDoc doc).children ↔ Unitless node.children := by
  cases node <;> rfl

@[simp] theorem isSourceUnit_withDoc (doc : Option String) (node : Node) :
    (node.withDoc doc).isSourceUnit = node.isSourceUnit := by
  cases node <;> rfl

end Unitless

namespace Parse

/-- When a parser succeeds, its result is as the condition says. -/
def Gives {α : Type} (parse : Parse α) (post : α → Prop) : Prop :=
  ∀ cursor a after, parse cursor = .ok (a, after) → post a

namespace Gives

variable {α β : Type} {post : α → Prop}

theorem pure {a : α} (holds : post a) : (Pure.pure a : Parse α).Gives post := by
  intro cursor b after run
  cases run
  exact holds

theorem bind {parse : Parse β} {next : β → Parse α} {middle : β → Prop} (first : parse.Gives middle)
    (second : ∀ b, middle b → (next b).Gives post) : (parse >>= next).Gives post := by
  intro cursor a after run
  cases step : parse cursor with
  | error fault => simp [Bind.bind, StateT.bind, Except.bind, step] at run
  | ok result =>
    obtain ⟨b, between⟩ := result
    simp only [Bind.bind, StateT.bind, Except.bind, step] at run
    exact second b (first cursor b between step) between a after run

/-- What the first parser gives does not matter. -/
theorem after {parse : Parse β} {next : β → Parse α} (second : ∀ b, (next b).Gives post) :
    (parse >>= next).Gives post :=
  have always : parse.Gives fun _ => True := fun _ _ _ _ => trivial
  bind always fun b _ => second b

theorem map {parse : Parse β} {f : β → α} (gives : parse.Gives fun b => post (f b)) :
    (f <$> parse).Gives post := by
  rw [map_eq_pure_bind]
  exact bind gives fun b holds => pure holds

theorem mono {parse : Parse α} {weaker : α → Prop} (gives : parse.Gives post)
    (weaken : ∀ a, post a → weaker a) : parse.Gives weaker :=
  fun cursor a after run => weaken a (gives cursor a after run)

/-- What is known to come first. -/
theorem known {b : β} {next : β → Parse α} (second : (next b).Gives post) : (Pure.pure b >>= next).Gives post :=
  second

theorem tooDeep : (tooDeep : Parse α).Gives post := by
  intro cursor a after run
  cases run

theorem ite {condition : Prop} [Decidable condition] {first second : Parse α}
    (whenTrue : condition → first.Gives post) (whenFalse : ¬condition → second.Gives post) :
    (if condition then first else second).Gives post := by
  split
  · exact whenTrue ‹_›
  · exact whenFalse ‹_›

theorem repeatStep {step : α → Parse (α × Bool)} {rounds : Nat} {value : α}
    (keeps : ∀ value, post value → (step value).Gives fun result => post result.1) (holds : post value) :
    (Parse.repeatStep step rounds value).Gives post := by
  induction rounds generalizing value with
  | zero => exact pure holds
  | succ rounds ih =>
    refine bind (keeps value holds) fun result kept => ?_
    obtain ⟨next, more⟩ := result
    exact ite (fun _ => ih kept) fun _ => pure kept

end Gives

end Parse

/-- The parsers for what stands inside brackets give trees without source units. -/
structure Inner.IsUnitless (inner : Inner) : Prop where
  statements (close : Option String) : (inner.statements close).Gives Unitless
  expression (least : Nat) : (inner.expression least).Gives fun node => Unitless node.toList
  unary : inner.unary.Gives fun node => Unitless node.toList
  primary : inner.primary.Gives fun node => Unitless node.toList

namespace Parse

variable {rounds : Nat} {inner : Inner}

theorem listStep_unitless (unitless : inner.IsUnitless) (close : String) (separators : List String)
    (nodes : List Node) (sofar : Unitless nodes) :
    (listStep inner close separators nodes).Gives fun result => Unitless result.1 := by
  refine .after fun token => ?_
  cases token with
  | none => exact .pure sofar
  | some token =>
    refine .ite (fun _ => .after fun _ => .pure sofar) fun _ => ?_
    refine .ite (fun _ => .after fun _ => .pure sofar) fun _ => .after fun next => ?_
    refine .ite (fun _ => .after fun _ => .after fun _ => .pure sofar) fun _ => ?_
    refine .bind (unitless.expression 0) fun found holds => ?_
    cases found with
    | none => exact .after fun _ => .pure sofar
    | some node => exact .pure (by simp_all)

theorem list_unitless (unitless : inner.IsUnitless) (close : String) (separators : List String) :
    (list rounds inner close separators).Gives Unitless := by
  have kept : (repeatStep (listStep inner close separators) rounds []).Gives Unitless :=
    .repeatStep (listStep_unitless unitless close separators) .nil
  rw [list_eq]
  exact .map (.mono kept fun nodes holds => by simpa using holds)

theorem arguments_unitless (unitless : inner.IsUnitless) : (arguments rounds inner).Gives Unitless :=
  .after fun _ => list_unitless unitless ")" _

theorem optionalArguments_unitless (unitless : inner.IsUnitless) :
    (optionalArguments rounds inner).Gives Unitless :=
  .after fun _ => .ite (fun _ => arguments_unitless unitless) fun _ => .pure .nil

theorem optionalBlock_unitless (unitless : inner.IsUnitless) : (optionalBlock inner).Gives Unitless :=
  .after fun _ => .ite (fun _ => unitless.statements _) fun _ => .pure .nil

theorem arrayItem_unitless (unitless : inner.IsUnitless) (items : List (ArrayItem Node)) (unpack byRef : Bool)
    (sofar : Unitless (items.map .item)) :
    (arrayItem inner items unpack byRef).Gives fun result => Unitless (result.1.map .item) := by
  refine .bind (unitless.expression 0) fun first holds => ?_
  cases first with
  | none => exact .after fun _ => .pure sofar
  | some first =>
    refine .after fun keyed => .ite (fun _ => .after fun byRef => ?_) fun _ => ?_
    · refine .bind (unitless.expression 0) fun value ofValue => .pure ?_
      simp_all [Node.children, Node.isSourceUnit]
    · exact .pure (by simp_all [Node.children, Node.isSourceUnit])

theorem arrayStep_unitless (unitless : inner.IsUnitless) (close : String) (items : List (ArrayItem Node))
    (sofar : Unitless (items.map .item)) :
    (arrayStep inner close items).Gives fun result => Unitless (result.1.map .item) := by
  refine .after fun token => ?_
  cases token with
  | none => exact .pure sofar
  | some token =>
    refine .ite (fun _ => .after fun _ => .pure sofar) fun _ => ?_
    refine .ite (fun _ => .after fun _ => .pure sofar) fun _ => .after fun unpack => ?_
    exact .ite (fun _ => arrayItem_unitless unitless items unpack false sofar) fun _ =>
      .after fun byRef => arrayItem_unitless unitless items unpack byRef sofar

theorem array_unitless (unitless : inner.IsUnitless) (close : String) (mark : Mark) :
    (array rounds inner close mark).Gives fun node => Unitless [node] := by
  have kept : (repeatStep (arrayStep inner close) rounds []).Gives fun items => Unitless (items.map .item) :=
    .repeatStep (arrayStep_unitless unitless close) .nil
  rw [array_eq]
  refine .map (.mono kept fun items holds => ?_)
  have inside : Unitless (items.reverse.map .item) := by rwa [List.map_reverse, Unitless.reverse]
  simpa [Node.children, Node.isSourceUnit] using inside

theorem closureEnd_unitless (unitless : inner.IsUnitless) (arrow : Bool) {parameters : List Node} (mark : Mark)
    (holds : Unitless parameters) :
    (closureEnd rounds inner arrow parameters mark).Gives fun node => Unitless [node] := by
  unfold closureEnd
  refine .after fun _ => ?_
  extract_lets behindBody behindType
  have atBody (body : List Node) (ofBody : Unitless body) : (behindBody body).Gives fun node => Unitless [node] :=
    .pure (by simp_all [Node.children, Node.isSourceUnit])
  have atType : (behindType ()).Gives fun node => Unitless [node] := by
    refine .ite (fun _ => .after fun _ => .ite (fun _ => ?_) fun _ => ?_) fun _ => ?_
    · exact .bind (unitless.expression _) fun body ofBody => .known (atBody _ ofBody)
    · exact .known (atBody [] .nil)
    · exact .bind (optionalBlock_unitless unitless) atBody
  exact .ite (fun _ => .after fun _ => atType) fun _ => atType

theorem closure_unitless (unitless : inner.IsUnitless) (doc : Option String) :
    (closure rounds inner doc).Gives fun node => Unitless [node] := by
  unfold closure
  refine .after fun keyword => ?_
  extract_lets line arrow behindParameters
  refine .after fun _ => .after fun _ => ?_
  have atParameters (parameters : List Node) (holds : Unitless parameters) :
      (behindParameters parameters).Gives fun node => Unitless [node] := by
    have ends : (closureEnd rounds inner arrow parameters { line, doc }).Gives fun node => Unitless [node] :=
      closureEnd_unitless unitless arrow { line, doc } holds
    exact .after fun _ => .after fun _ =>
      .ite (fun _ => .after fun _ => .after fun _ => .after fun _ => ends) fun _ => ends
  refine .ite (fun _ => ?_) fun _ => ?_
  · exact .bind (list_unitless unitless ")" _) atParameters
  · exact .known (atParameters [] .nil)

theorem creation_unitless (unitless : inner.IsUnitless) (doc : Option String) :
    (creation rounds inner doc).Gives fun node => Unitless [node] := by
  unfold creation
  refine .after fun keyword => ?_
  extract_lets line behindClass
  refine .after fun _ => .ite (fun _ => .after fun _ => ?_) fun _ => ?_
  · refine .bind (optionalArguments_unitless unitless) fun args ofArgs => .after fun _ => ?_
    refine .bind (optionalBlock_unitless unitless) fun body ofBody => .pure ?_
    simp_all [Node.children, Node.isSourceUnit]
  have atClass (className : String) : (behindClass className).Gives fun node => Unitless [node] :=
    .bind (optionalArguments_unitless unitless) fun args ofArgs =>
      .pure (by simp_all [Node.children, Node.isSourceUnit])
  refine .after fun _ => .ite (fun _ => ?_) fun _ => .ite (fun _ => ?_) fun _ => .ite (fun _ => ?_) fun _ => ?_
  · exact .after fun _ => .known (atClass _)
  · exact .after fun _ => .after atClass
  · exact .after fun _ => .known (atClass _)
  · exact .known (atClass _)

theorem staticAccess_unitless (unitless : inner.IsUnitless) (className : String) (mark : Mark) :
    (staticAccess rounds inner className mark).Gives fun node => Unitless [node] := by
  refine .after fun _ => .after fun member => ?_
  cases member with
  | none => exact .pure (by simp [Node.children, Node.isSourceUnit])
  | some member =>
    dsimp only
    split
    · refine .after fun _ => .after fun _ => .ite (fun _ => ?_) fun _ => ?_
      · refine .bind (arguments_unitless unitless) fun args ofArgs => .pure ?_
        simp_all [Node.children, Node.isSourceUnit]
      · exact .pure (by simp [Node.children, Node.isSourceUnit])
    · exact .after fun _ => .pure (by simp [Node.children, Node.isSourceUnit])
    · refine .after fun _ => .ite (fun _ => ?_) fun _ => ?_
      · refine .bind (list_unitless unitless closeBrace _) fun inside ofInside => .pure ?_
        simp_all [Node.children, Node.isSourceUnit]
      · exact .pure (by simp [Node.children, Node.isSourceUnit])

theorem called_unitless (unitless : inner.IsUnitless) {node property : Node} {name : String} {line : Int}
    (ofNode : Unitless [node]) (ofProperty : Unitless [property]) :
    Gives (do
        if isSign (← peek) "(" then
          return (.methodCall node name (← arguments rounds inner) { line }, true)
        else return (property, true))
      fun result => Unitless [result.1] := by
  refine .after fun _ => .ite (fun _ => ?_) fun _ => .pure ofProperty
  refine .bind (arguments_unitless unitless) fun args ofArgs => .pure ?_
  simp_all [Node.children, Node.isSourceUnit]

theorem member_unitless (unitless : inner.IsUnitless) {node : Node} (ofNode : Unitless [node]) :
    (member rounds inner node).Gives fun result => Unitless [result.1] := by
  have around (made : Node) (isNode : made.isSourceUnit = false) (inside : made.children = [node]) :
      Unitless [made] := by simp_all
  refine .after fun _ => .after fun member => ?_
  cases member with
  | none => exact .pure ofNode
  | some member =>
    dsimp only
    split
    · exact .after fun _ => .known (called_unitless unitless ofNode (around _ rfl rfl))
    · exact .after fun _ => .known (called_unitless unitless ofNode (around _ rfl rfl))
    · refine .after fun _ => .ite (fun _ => .after fun _ => ?_) fun _ => .known (.pure ofNode)
      exact .known (called_unitless unitless ofNode (around _ rfl rfl))

theorem staticMember_unitless (unitless : inner.IsUnitless) {node : Node} (ofNode : Unitless [node]) :
    (staticMember rounds inner node).Gives fun result => Unitless [result.1] := by
  refine .after fun _ => .after fun member => ?_
  cases member with
  | none => exact .pure ofNode
  | some member =>
    dsimp only
    split
    · exact .after fun _ => called_unitless unitless ofNode (by simp_all [Node.children, Node.isSourceUnit])
    · exact .after fun _ => .pure (by simp_all [Node.children, Node.isSourceUnit])
    · exact .pure ofNode

theorem postfixStep_unitless (unitless : inner.IsUnitless) (node : Node) (ofNode : Unitless [node]) :
    (postfixStep rounds inner node).Gives fun result => Unitless [result.1] := by
  refine .after fun token => ?_
  cases token with
  | none => exact .pure ofNode
  | some token =>
    refine .ite (fun _ => member_unitless unitless ofNode) fun _ =>
      .ite (fun _ => staticMember_unitless unitless ofNode) fun _ => .ite (fun _ => ?_) fun _ =>
      .ite (fun _ => ?_) fun _ => .ite (fun _ => ?_) fun _ => .pure ofNode
    · refine .after fun _ => .bind (list_unitless unitless "]" _) fun index ofIndex => .pure ?_
      simp_all [Node.children, Node.isSourceUnit]
    · refine .bind (arguments_unitless unitless) fun args ofArgs => .pure ?_
      simp_all [Node.children, Node.isSourceUnit]
    · exact .after fun _ => .pure (by simp_all [Node.children, Node.isSourceUnit])

theorem postfixes_unitless (unitless : inner.IsUnitless) {node : Node} (ofNode : Unitless [node]) :
    (postfixes rounds inner node).Gives fun node => Unitless [node] := by
  rw [postfixes_eq]
  exact .repeatStep (postfixStep_unitless unitless) ofNode

theorem named_unitless (unitless : inner.IsUnitless) (token : Token) (next : Option Token) (mark : Mark) :
    (named rounds inner token next mark).Gives fun node => Unitless [node] := by
  refine .after fun _ => .ite (fun _ => ?_) fun _ => ?_
  · refine .bind (arguments_unitless unitless) fun args ofArgs => .pure ?_
    simp_all [Node.children, Node.isSourceUnit]
  · exact .ite (fun _ => staticAccess_unitless unitless _ mark) fun _ =>
      .pure (by simp [Node.children, Node.isSourceUnit])

theorem namedOperand_unitless (unitless : inner.IsUnitless) (token : Token) (next : Option Token)
    (doc : Option String) (mark : Mark) :
    (namedOperand rounds inner token next doc mark).Gives fun node => Unitless node.toList := by
  unfold namedOperand
  refine .ite (fun _ => ?_) fun _ => .ite (fun _ => ?_) fun _ => .ite (fun _ => ?_) fun _ =>
    .ite (fun _ => ?_) fun _ => ?_
  · exact .after fun _ => .after fun _ => .bind (array_unitless unitless ")" mark) fun node ofNode => .pure ofNode
  · exact .bind (closure_unitless unitless doc) fun node ofNode => .pure ofNode
  · exact .bind (creation_unitless unitless doc) fun node ofNode => .pure ofNode
  · refine .after fun _ => .after fun _ => .bind (list_unitless unitless ")" _) fun subject ofSubject => ?_
    refine .after fun _ => .ite (fun _ => ?_) fun _ => ?_
    · refine .bind (list_unitless unitless closeBrace _) fun arms ofArms => .pure ?_
      simp_all [Node.children, Node.isSourceUnit]
    · exact .known (.pure (by simp_all [Node.children, Node.isSourceUnit]))
  · exact .bind (named_unitless unitless token _ mark) fun node ofNode => .pure ofNode

theorem signOperand_unitless (unitless : inner.IsUnitless) (token : Token) (kind : TokenKind) (doc : Option String)
    (mark : Mark) : (signOperand rounds inner token kind doc mark).Gives fun node => Unitless node.toList := by
  refine .ite (fun _ => ?_) fun _ => .ite (fun _ => ?_) fun _ => .ite (fun _ => ?_) fun _ =>
    .ite (fun _ => ?_) fun _ => .after fun _ => .pure .nil
  · exact .after fun _ => .bind (array_unitless unitless "]" mark) fun node ofNode => .pure ofNode
  · refine .after fun _ => .bind (list_unitless unitless ")" _) fun inside ofInside => ?_
    split
    · refine .pure ?_
      split <;> simp_all
    · exact .pure (by simp_all [Node.children, Node.isSourceUnit])
  · exact .after fun _ => .after fun _ => unitless.unary
  · refine .after fun _ => .bind unitless.primary fun node ofNode => .pure ?_
    simp_all [Node.children, Node.isSourceUnit]

theorem primary_unitless (unitless : inner.IsUnitless) :
    (primary rounds inner).Gives fun node => Unitless node.toList := by
  refine .after fun token => ?_
  cases token with
  | none => exact .pure .nil
  | some token =>
    refine .after fun doc => ?_
    extract_lets mark word
    split
    · exact .after fun _ => .pure (by simp [Node.children, Node.isSourceUnit])
    · exact .after fun _ => .pure (by simp [Node.children, Node.isSourceUnit])
    · exact .after fun _ => .pure (by simp [Node.children, Node.isSourceUnit])
    · exact .after fun next => namedOperand_unitless unitless token next doc mark
    · exact signOperand_unitless unitless token token.kind doc mark

theorem operand_unitless (unitless : inner.IsUnitless) :
    (operand rounds inner).Gives fun node => Unitless node.toList := by
  refine .bind (primary_unitless unitless) fun found holds => ?_
  cases found with
  | none => exact .pure .nil
  | some node => exact .bind (postfixes_unitless unitless holds) fun node ofNode => .pure ofNode

theorem prefixed_unitless (token : Token) {operand : Option Node} (holds : Unitless operand.toList) :
    Unitless [prefixed token operand] := by
  unfold prefixed
  split <;> simp_all [Node.children, Node.isSourceUnit]

theorem wordOperand_unitless (unitless : inner.IsUnitless) (token : Token) :
    (wordOperand rounds inner token).Gives fun node => Unitless node.toList := by
  refine .after fun _ => .ite (fun _ => ?_) fun _ => .after fun _ =>
    .ite (fun _ => .after fun _ => operand_unitless unitless) fun _ => operand_unitless unitless
  extract_lets word behindWord
  have atOperand : (behindWord ()).Gives fun node => Unitless node.toList := by
    refine .bind (unitless.expression _) fun operand holds => .pure ?_
    simp_all [Node.children, Node.isSourceUnit]
  exact .after fun _ => .after fun _ => .ite (fun _ => .after fun _ => atOperand) fun _ => atOperand

theorem unary_unitless (unitless : inner.IsUnitless) :
    (unary rounds inner).Gives fun node => Unitless node.toList := by
  refine .after fun token => ?_
  cases token with
  | none => exact .pure .nil
  | some token =>
    refine .ite (fun _ => ?_) fun _ => .ite (fun _ => ?_) fun _ => .ite (fun _ => ?_) fun _ =>
      .after fun _ => .after fun _ => .ite (fun _ => ?_) fun _ => wordOperand_unitless unitless token
    · exact .after fun _ => .bind unitless.unary fun operand holds => .pure (prefixed_unitless token holds)
    · refine .after fun _ => .bind unitless.unary fun operand holds => .pure ?_
      simp_all [Node.children, Node.isSourceUnit]
    · exact .after fun _ => unitless.unary
    · refine .after fun _ => .after fun _ => .after fun _ => .bind unitless.unary fun operand holds => .pure ?_
      simp_all [Node.children, Node.isSourceUnit]

theorem joined_unitless (kind : String) {left : Node} {right : Option Node} (ofLeft : Unitless [left])
    (ofRight : Unitless right.toList) : Unitless [joined kind left right] := by
  simp_all [joined, Node.children, Node.isSourceUnit]

theorem choice_unitless (unitless : inner.IsUnitless) {left : Node} (ofLeft : Unitless [left]) :
    (choice inner left).Gives fun node => Unitless [node] := by
  refine .after fun _ => .after fun _ => .ite (fun _ => ?_) fun _ => ?_
  · exact .bind (unitless.expression _) fun right ofRight => .pure (joined_unitless _ ofLeft ofRight)
  refine .bind (unitless.expression 0) fun middle ofMiddle => .after fun _ => ?_
  have around (right : Option Node) (ofRight : Unitless right.toList) :
      Unitless [.operation "ternary" (left :: middle.toList ++ right.toList) { line := left.line }] := by
    simp_all [Node.children, Node.isSourceUnit]
  refine .ite (fun _ => ?_) fun _ => ?_
  · exact .bind (unitless.expression _) fun right ofRight => .pure (around right ofRight)
  · exact .known (.pure (around none .nil))

theorem expressionStep_unitless (unitless : inner.IsUnitless) (least : Nat) (left : Node)
    (ofLeft : Unitless [left]) : (expressionStep inner least left).Gives fun result => Unitless [result.1] := by
  refine .after fun token => ?_
  cases token with
  | none => exact .pure ofLeft
  | some token =>
    refine .ite (fun _ => .ite (fun _ => .pure ofLeft) fun _ => ?_) fun _ =>
      .ite (fun _ => .ite (fun _ => .pure ofLeft) fun _ => ?_) fun _ => ?_
    · refine .after fun _ => .after fun _ => .bind (unitless.expression _) fun right ofRight => .pure ?_
      exact joined_unitless _ ofLeft ofRight
    · exact .bind (choice_unitless unitless ofLeft) fun node ofNode => .pure ofNode
    · split
      · exact .pure ofLeft
      · refine .ite (fun _ => .pure ofLeft) fun _ => .after fun _ => ?_
        exact .bind (unitless.expression _) fun right ofRight => .pure (joined_unitless _ ofLeft ofRight)

theorem expression_unitless (unitless : inner.IsUnitless) (least : Nat) :
    (expression rounds inner least).Gives fun node => Unitless node.toList := by
  rw [expression_eq]
  refine .bind (unary_unitless unitless) fun found holds => ?_
  cases found with
  | none => exact .pure .nil
  | some first =>
    exact .bind (.repeatStep (expressionStep_unitless unitless least) holds) fun node ofNode => .pure ofNode

theorem classDeclaration_unitless (unitless : inner.IsUnitless) :
    (classDeclaration rounds inner).Gives fun node => Unitless [node] := by
  refine .after fun keyword => .after fun name => .after fun _ => ?_
  refine .bind (optionalBlock_unitless unitless) fun body ofBody => .pure ?_
  simp_all [Node.children, Node.isSourceUnit]

theorem functionDeclaration_unitless (unitless : inner.IsUnitless) :
    (functionDeclaration rounds inner).Gives Unitless := by
  unfold functionDeclaration
  extract_lets behindParameters
  have atParameters (parameters : List Node) (holds : Unitless parameters) :
      (behindParameters parameters).Gives Unitless := by
    refine .after fun _ => ?_
    extract_lets behindType
    have atType : (behindType ()).Gives Unitless :=
      .bind (optionalBlock_unitless unitless) fun body ofBody => .pure (Unitless.append.mpr ⟨holds, ofBody⟩)
    exact .ite (fun _ => .after fun _ => atType) fun _ => atType
  refine .after fun _ => .after fun _ => .after fun _ => .after fun _ => .ite (fun _ => ?_) fun _ => ?_
  · exact .bind (list_unitless unitless ")" _) atParameters
  · exact .known (atParameters [] .nil)

theorem passOver_unitless : passOver.Gives Unitless := .after fun _ => .pure .nil

theorem expressionStatement_unitless (unitless : inner.IsUnitless) :
    (expressionStatement rounds inner).Gives Unitless :=
  .bind (expression_unitless unitless 0) fun _ ofNode => .pure ofNode

theorem namedStatement_unitless (unitless : inner.IsUnitless) (token : Token) :
    (namedStatement rounds inner token).Gives Unitless := by
  unfold namedStatement
  extract_lets word
  refine .after fun next => .after fun third => ?_
  refine .ite (fun _ => ?_) fun _ => .ite (fun _ => ?_) fun _ => .ite (fun _ => ?_) fun _ =>
    .ite (fun _ => passOver_unitless) fun _ => .ite (fun _ => passOver_unitless) fun _ =>
    .ite (fun _ => passOver_unitless) fun _ => .ite (fun _ => functionDeclaration_unitless unitless) fun _ =>
    .ite (fun _ => passOver_unitless) fun _ => .ite (fun _ => ?_) fun _ => .ite (fun _ => passOver_unitless) fun _ =>
    expressionStatement_unitless unitless
  · refine .after fun _ => .after fun _ => .ite (fun _ => .after fun _ => ?_) fun _ => ?_ <;>
      exact optionalBlock_unitless unitless
  · exact .after fun _ => .pure .nil
  · exact .bind (classDeclaration_unitless unitless) fun node ofNode => .pure ofNode
  · exact .after fun _ => passOver_unitless

theorem statement_unitless (unitless : inner.IsUnitless) : (statement rounds inner).Gives Unitless := by
  refine .after fun token => ?_
  cases token with
  | none => exact .pure .nil
  | some token =>
    refine .ite (fun _ => passOver_unitless) fun _ => .ite (fun _ => optionalBlock_unitless unitless) fun _ =>
      .ite (fun _ => ?_) fun _ => .ite (fun _ => ?_) fun _ =>
      .ite (fun _ => namedStatement_unitless unitless token) fun _ => expressionStatement_unitless unitless
    · exact .after fun _ => .pure .nil
    · exact .after fun _ => .pure .nil

theorem statementStep_unitless (unitless : inner.IsUnitless) (close : Option String) (nodes : List Node)
    (sofar : Unitless nodes) :
    (statementStep rounds inner close nodes).Gives fun result => Unitless result.1 := by
  refine .after fun token => .ite (fun _ => .pure sofar) fun _ =>
    .ite (fun _ => .after fun _ => .pure sofar) fun _ => ?_
  refine .after fun earlier => .bind (statement_unitless unitless) fun found holds => .after fun now => ?_
  have both : Unitless (found.reverse ++ nodes) := Unitless.append.mpr ⟨Unitless.reverse.mpr holds, sofar⟩
  exact .ite (fun _ => .after fun _ => .pure both) fun _ => .pure both

theorem statements_unitless (unitless : inner.IsUnitless) (close : Option String) :
    (statements rounds inner close).Gives Unitless := by
  have kept : (repeatStep (statementStep rounds inner close) rounds []).Gives Unitless :=
    .repeatStep (statementStep_unitless unitless close) .nil
  rw [statements_eq]
  exact .map (.mono kept fun nodes holds => Unitless.reverse.mpr holds)

end Parse

/-- Parsers of every depth give trees without source units. -/
theorem Inner.ofDepth_unitless (rounds depth : Nat) : (Inner.ofDepth rounds depth).IsUnitless := by
  induction depth with
  | zero => exact ⟨fun _ => .tooDeep, fun _ => .tooDeep, .tooDeep, .tooDeep⟩
  | succ depth ih =>
    exact ⟨Parse.statements_unitless ih, Parse.expression_unitless ih, Parse.unary_unitless ih,
      Parse.primary_unitless ih⟩

/-- The trees of a source hold no source unit. -/
theorem parseSource_unitless {path source : String} {limit : Nat} {unit : SourceUnit} {log : List LogRecord}
    (parsed : parseSource path source limit = .ok (unit, log)) : unit.path = path ∧ Unitless unit.nodes := by
  unfold parseSource at parsed
  split at parsed
  · cases parsed
  split at parsed
  · cases parsed
  rename_i nodes skipped trees
  cases parsed
  refine ⟨rfl, ?_⟩
  unfold parseTokens at trees
  extract_lets significant rounds at trees
  split at trees
  · cases trees
  rename_i found cursor run
  cases trees
  exact (Inner.ofDepth_unitless rounds limit).statements none _ _ _ run

end FormHarvest
