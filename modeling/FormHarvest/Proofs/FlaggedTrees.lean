import FormHarvest.Proofs.NotedDiagnostics
import FormHarvest.Proofs.PlacedTexts

namespace FormHarvest

/-- Whether an option array has choices, whatever their value is. -/
def hasChoices (items : List (ArrayItem Node)) : Bool :=
  items.any fun item => item.keyText? == some "choices"

/-- The item that says that the values of choices are their labels' counterparts. -/
def choicesFlag (mark : Mark) : ArrayItem Node where
  key := some (.string "choices_as_values" false mark)
  value := some (.constant "true" mark)
  mark

theorem isConstant_true (mark : Mark) : (Node.constant "true" mark).isConstant "true" = true :=
  (by decide +kernel : (lowercase "true" == "true") = true)

/-- What is put behind the items of an option array. -/
def flagsFor (mark : Mark) (items : List (ArrayItem Node)) : List (ArrayItem Node) :=
  if hasChoices items then [choicesFlag mark] else []

@[simp] theorem flagsFor_nil (mark : Mark) : flagsFor mark [] = [] := rfl

namespace Node

mutual

/-- A tree with a flag in every option array that has choices. -/
def flagged (flag : Mark) : Node → Node
  | .variable name mark => .variable name mark
  | .string value interpolated mark => .string value interpolated mark
  | .number value raw mark => .number value raw mark
  | .array items mark => .array (itemsFlagged flag items ++ flagsFor flag items) mark
  | .item content => .item (itemFlagged flag content)
  | .methodCall receiver name args mark =>
    .methodCall (flagged flag receiver) name (allFlagged flag args) mark
  | .call name callee args mark => .call name (partFlagged flag callee) (allFlagged flag args) mark
  | .staticCall className name args mark => .staticCall className name (allFlagged flag args) mark
  | .creation className args mark => .creation className (allFlagged flag args) mark
  | .constant name mark => .constant name mark
  | .classConstant className name mark => .classConstant className name mark
  | .property receiver name mark => .property (flagged flag receiver) name mark
  | .closure body mark => .closure (allFlagged flag body) mark
  | .operation kind operands mark => .operation kind (allFlagged flag operands) mark
  | .classBody name body mark => .classBody name (allFlagged flag body) mark
  | .sourceUnit path nodes => .sourceUnit path (allFlagged flag nodes)

def allFlagged (flag : Mark) : List Node → List Node
  | [] => []
  | node :: rest => flagged flag node :: allFlagged flag rest

def partFlagged (flag : Mark) : Option Node → Option Node
  | none => none
  | some node => some (flagged flag node)

def itemFlagged (flag : Mark) : ArrayItem Node → ArrayItem Node
  | ⟨key, value, byRef, unpack, mark⟩ => ⟨partFlagged flag key, partFlagged flag value, byRef, unpack, mark⟩

def itemsFlagged (flag : Mark) : List (ArrayItem Node) → List (ArrayItem Node)
  | [] => []
  | first :: rest => itemFlagged flag first :: itemsFlagged flag rest

end

variable (flag : Mark)

theorem allFlagged_eq_map (nodes : List Node) : allFlagged flag nodes = nodes.map (flagged flag) := by
  induction nodes with
  | nil => rfl
  | cons node rest ih => rw [allFlagged, ih, List.map_cons]

theorem itemsFlagged_eq_map (items : List (ArrayItem Node)) :
    itemsFlagged flag items = items.map (itemFlagged flag) := by
  induction items with
  | nil => rfl
  | cons item rest ih => rw [itemsFlagged, ih, List.map_cons]

theorem partFlagged_eq_map (part : Option Node) : partFlagged flag part = part.map (flagged flag) := by
  cases part <;> rfl

@[simp] theorem knownString?_flagged (node : Node) : (node.flagged flag).knownString? = node.knownString? := by
  cases node <;> rfl

@[simp] theorem isConstant_flagged (name : String) (node : Node) :
    (node.flagged flag).isConstant name = node.isConstant name := by
  cases node <;> rfl

@[simp] theorem isLabel_flagged (node : Node) : (node.flagged flag).isLabel = node.isLabel := by
  cases node <;> rfl

theorem mark_flagged (node : Node) : (node.flagged flag).mark = node.mark := by
  cases node with
  | item content => cases content; rfl
  | _ => rfl

theorem line_flagged (node : Node) : (node.flagged flag).line = node.line :=
  congrArg Mark.line (node.mark_flagged flag)

theorem doc_flagged (node : Node) : (node.flagged flag).doc = node.doc :=
  congrArg Mark.doc (node.mark_flagged flag)

@[simp] theorem kindName_flagged (node : Node) : (node.flagged flag).kindName = node.kindName := by
  cases node with
  | string value interpolated mark => cases interpolated <;> rfl
  | _ => rfl

@[simp] theorem isClassBody_flagged (node : Node) : (node.flagged flag).isClassBody = node.isClassBody := by
  cases node <;> rfl

@[simp] theorem isSourceUnit_flagged (node : Node) : (node.flagged flag).isSourceUnit = node.isSourceUnit := by
  cases node <;> rfl

theorem callArguments?_flagged (node : Node) :
    (node.flagged flag).callArguments? = node.callArguments?.map (List.map (flagged flag)) := by
  cases node <;> simp only [flagged, callArguments?, allFlagged_eq_map, Option.map_some, Option.map_none]

end Node

/-- The items of an option array with a flag if there are choices among them. -/
def itemsWithFlags (flag : Mark) (items : List (ArrayItem Node)) : List (ArrayItem Node) :=
  items.map (Node.itemFlagged flag) ++ flagsFor flag items

theorem Node.arrayItems?_flagged (flag : Mark) (node : Node) :
    (node.flagged flag).arrayItems? = node.arrayItems?.map (itemsWithFlags flag) := by
  cases node <;> simp only [flagged, arrayItems?, itemsFlagged_eq_map, itemsWithFlags, Option.map_some, Option.map_none]

theorem bind_arrayItems?_flagged (flag : Mark) (part : Option Node) :
    (part.map (Node.flagged flag)).bind Node.arrayItems?
      = (part.bind Node.arrayItems?).map (itemsWithFlags flag) := by
  cases part with
  | none => rfl
  | some node => exact node.arrayItems?_flagged flag

namespace ArrayItem

open Node (flagged itemFlagged partFlagged_eq_map)

variable (flag : Mark) (item : ArrayItem Node)

@[simp] theorem key_itemFlagged : (itemFlagged flag item).key = item.key.map (flagged flag) := by
  cases item
  exact partFlagged_eq_map flag _

@[simp] theorem value_itemFlagged : (itemFlagged flag item).value = item.value.map (flagged flag) := by
  cases item
  exact partFlagged_eq_map flag _

@[simp] theorem mark_itemFlagged : (itemFlagged flag item).mark = item.mark := by
  cases item
  rfl

theorem inverted_itemFlagged : (itemFlagged flag item).inverted = itemFlagged flag item.inverted := by
  cases item
  rfl

@[simp] theorem keyText?_itemFlagged : (itemFlagged flag item).keyText? = item.keyText? := by
  simp only [keyText?, key_itemFlagged, Option.bind_map, Function.comp_def, Node.knownString?_flagged]

end ArrayItem

theorem Finding.ofItem_itemFlagged (flag : Mark) (path : String) (item : ArrayItem Node) :
    ofItem path (Node.itemFlagged flag item) = ofItem path item := by
  have text (node : Node) : text? (node.flagged flag) = text? node := by
    cases node <;> rfl
  have silent (value : Option Node) : meansNoText (value.map (Node.flagged flag)) = meansNoText value := by
    cases value <;> simp [meansNoText]
  have line : lineOf (Node.itemFlagged flag item) = lineOf item := by
    simp only [lineOf, ArrayItem.value_itemFlagged, ArrayItem.mark_itemFlagged, Option.map_map,
      Function.comp_def, Node.line_flagged]
  have doc : docOf (Node.itemFlagged flag item) = docOf item := by
    simp only [docOf, ArrayItem.key_itemFlagged, ArrayItem.value_itemFlagged, Option.bind_map,
      Function.comp_def, Node.doc_flagged]
  have kind : kindNameOf (item.value.map (Node.flagged flag)) = kindNameOf item.value := by
    simp [kindNameOf, Function.comp_def]
  simp only [ofItem, line, doc, kind, silent, ArrayItem.value_itemFlagged, Option.bind_map,
    Function.comp_def, text]

/-- A flag is no text, and nothing is noted about it. -/
theorem Finding.ofItem_choicesFlag (path : String) (flag : Mark) :
    (ofItem path (choicesFlag flag)).1 = .nothing := by
  have silent : meansNoText (choicesFlag flag).value = true := by
    simp only [meansNoText, choicesFlag, isConstant_true, Bool.or_true, Bool.true_or]
  have none : (choicesFlag flag).value.bind text? = none := rfl
  simp only [ofItem, silent, none, Bool.or_true, if_true]

/-- A reading of texts that does not see flags. -/
structure FlagBlind {β : Type} (flag : Mark) (read : TextItem → Option β) : Prop where
  item (item : ArrayItem Node) (domain : Option String) :
    read ⟨Node.itemFlagged flag item, domain⟩ = read ⟨item, domain⟩
  flag (domain : Option String) : read ⟨choicesFlag flag, domain⟩ = none

namespace Extractor

theorem readItem?_flagBlind (flag : Mark) (path : String) : FlagBlind flag (readItem? path) where
  item item domain := by simp only [readItem?, Finding.ofItem_itemFlagged]
  flag domain := by simp only [readItem?, Finding.ofItem_choicesFlag]

theorem unreadable?_flagBlind (flag : Mark) (path : String) : FlagBlind flag (unreadable? path) where
  item item domain := by simp only [unreadable?, Finding.ofItem_itemFlagged]
  flag domain := by simp only [unreadable?, Finding.ofItem_choicesFlag]

end Extractor

/-! ### Parts of option arrays -/

section Parts

variable (flag : Mark)

/-- What is looked for among items is found again if it is no flag. -/
theorem filter_itemsWithFlags (test : ArrayItem Node → Bool)
    (alike : ∀ item, test (Node.itemFlagged flag item) = test item) (noFlag : test (choicesFlag flag) = false)
    (items : List (ArrayItem Node)) :
    (itemsWithFlags flag items).filter test = (items.filter test).map (Node.itemFlagged flag) := by
  have behind : (flagsFor flag items).filter test = [] := by
    rw [flagsFor]
    split
    · rw [List.filter_cons_of_neg (by rw [noFlag]; decide), List.filter_nil]
    · rfl
  rw [itemsWithFlags, List.filter_append, behind, List.append_nil, List.filter_map]
  simp only [Function.comp_def, alike]

theorem itemsWithFlags_of_not_hasChoices {items : List (ArrayItem Node)} (without : hasChoices items = false) :
    itemsWithFlags flag items = items.map (Node.itemFlagged flag) := by
  rw [itemsWithFlags, flagsFor, without]
  exact List.append_nil _

theorem translationDomain?_itemsWithFlags (items : List (ArrayItem Node)) :
    translationDomain? (itemsWithFlags flag items) = translationDomain? items := by
  have alike (item : ArrayItem Node) :
      (if (Node.itemFlagged flag item).keyText? == some "translation_domain" then
          (Node.itemFlagged flag item).value.bind Node.knownString? else none)
        = if item.keyText? == some "translation_domain" then item.value.bind Node.knownString? else none := by
    simp only [ArrayItem.keyText?_itemFlagged, ArrayItem.value_itemFlagged, Option.bind_map,
      Function.comp_def, Node.knownString?_flagged]
  have behind : (flagsFor flag items).filterMap (fun item =>
      if item.keyText? == some "translation_domain" then item.value.bind Node.knownString? else none) = [] := by
    rw [flagsFor]
    split <;> rfl
  rw [translationDomain?, lastOption?, itemsWithFlags, List.filterMap_append, behind, List.append_nil,
    List.filterMap_map]
  simp only [Function.comp_def, alike]
  rfl

/-- The flag is the last word on the choices. -/
theorem choicesAsValues_itemsWithFlags {items : List (ArrayItem Node)} (has : hasChoices items = true) :
    choicesAsValues (itemsWithFlags flag items) = true := by
  have last : [choicesFlag flag].filterMap (fun item =>
      if item.keyText? == some "choices_as_values" then some (item.value.any (Node.isConstant "true"))
      else none) = [true] :=
    congrArg (fun truth => [truth]) (isConstant_true flag)
  rw [choicesAsValues, lastOption?, itemsWithFlags, flagsFor, if_pos has, List.filterMap_append, last,
    List.getLast?_append]
  rfl

/-- A choice has the same labels, with flags beside them in a key, where no flag is read. -/
theorem choiceItems_itemFlagged {choice : ArrayItem Node}
    (plain : ∀ group ∈ choice.value.bind Node.arrayItems?, hasChoices group = false) :
    choiceItems true (Node.itemFlagged flag choice)
      = (choiceItems true choice).map (Node.itemFlagged flag) := by
  have label (item : ArrayItem Node) :
      (Node.itemFlagged flag item).value.any Node.isLabel = item.value.any Node.isLabel := by
    simp only [ArrayItem.value_itemFlagged, Option.any_map, Node.isLabel_flagged]
  have filtered (found : List (ArrayItem Node)) :
      (found.map (Node.itemFlagged flag)).filter (fun item => item.value.any Node.isLabel)
        = (found.filter fun item => item.value.any Node.isLabel).map (Node.itemFlagged flag) := by
    rw [List.filter_map]
    simp only [Function.comp_def, label]
  simp only [choiceItems, if_true, ArrayItem.inverted_itemFlagged, ArrayItem.key_itemFlagged,
    ArrayItem.value_itemFlagged, bind_arrayItems?_flagged]
  have known : choice.inverted.key.bind Node.arrayItems? = choice.value.bind Node.arrayItems? := rfl
  rw [known]
  cases isGroup : choice.value.bind Node.arrayItems? with
  | some group =>
    have turned : (itemsWithFlags flag group).map ArrayItem.inverted
        = (group.map ArrayItem.inverted).map (Node.itemFlagged flag) := by
      rw [itemsWithFlags_of_not_hasChoices flag (plain group isGroup), List.map_map, List.map_map]
      exact List.map_congr_left fun item _ => item.inverted_itemFlagged flag
    simp only [Option.map_some, turned, ← filtered, List.map_append, List.map_cons, List.map_nil]
  | none =>
    simp only [Option.map_none]
    cases choice.inverted.value.bind Node.arrayItems? with
    | none => simp only [Option.map_none, ← filtered, List.map_cons, List.map_nil]
    | some group => exact filter_itemsWithFlags flag _ label rfl group

theorem flatMap_choiceItems_itemsWithFlags {choices : Option (List (ArrayItem Node))}
    (plain : ∀ items ∈ choices, hasChoices items = false ∧
      ∀ choice ∈ items, ∀ group ∈ choice.value.bind Node.arrayItems?, hasChoices group = false) :
    ((choices.map (itemsWithFlags flag)).getD []).flatMap (choiceItems true)
      = ((choices.getD []).flatMap (choiceItems true)).map (Node.itemFlagged flag) := by
  cases choices with
  | none => rfl
  | some items =>
    obtain ⟨without, groups⟩ := plain items rfl
    simp only [Option.map_some, Option.getD_some, itemsWithFlags_of_not_hasChoices flag without,
      List.flatMap_map, List.map_flatMap]
    exact List.flatMap_congr fun choice member => choiceItems_itemFlagged flag (groups choice member)

theorem attributeItems_map_flagged (nodes : List Node) :
    attributeItems (nodes.map (Node.flagged flag)) = (attributeItems nodes).map (Node.itemFlagged flag) := by
  fun_induction attributeItems nodes with
  | case1 => rw [List.map_nil, List.map_nil, attributeItems]
  | case2 node rest args call ih =>
    have again : (node.flagged flag).callArguments? = some (args.map (Node.flagged flag)) := by
      rw [node.callArguments?_flagged, call, Option.map_some]
    rw [List.map_cons, attributeItems_cons_of_call _ again, ← List.map_append, ih]
  | case3 node rest noCall ih =>
    rw [List.map_cons, attributeItems_cons_of_none _ (by rw [node.callArguments?_flagged, noCall, Option.map_none]),
      ih, List.map_append, node.arrayItems?_flagged]
    congr 1
    cases node.arrayItems? with
    | none => rfl
    | some items =>
      exact filter_itemsWithFlags flag _ (fun item => by rw [ArrayItem.keyText?_itemFlagged]) rfl items

theorem constraintItems_itemsWithFlags (constraints : List (ArrayItem Node)) :
    constraintItems (itemsWithFlags flag constraints)
      = (constraintItems constraints).map (Node.itemFlagged flag) := by
  have behind : constraintItems (flagsFor flag constraints) = [] := by
    rw [flagsFor]
    split <;> rfl
  have parts (first second : List (ArrayItem Node)) :
      constraintItems (first ++ second) = constraintItems first ++ constraintItems second :=
    List.flatMap_append
  rw [itemsWithFlags, parts, behind, List.append_nil, constraintItems_eq_flatMap,
    constraintItems_eq_flatMap constraints, List.flatMap_map, List.map_flatMap]
  refine List.flatMap_congr fun constraint _ => ?_
  simp only [constraintItems, List.flatMap_cons, List.flatMap_nil, List.append_nil, ArrayItem.value_itemFlagged]
  cases constraint.value with
  | none => rfl
  | some call =>
    simp only [Option.map_some, Option.bind_some, call.callArguments?_flagged]
    cases call.callArguments? with
    | none => rfl
    | some args =>
      cases args with
      | nil => rfl
      | cons options rest =>
        simp only [Option.map_some, Option.bind_some, List.map_cons, List.head?_cons,
          options.arrayItems?_flagged]
        cases options.arrayItems? with
        | none => rfl
        | some items =>
          exact filter_itemsWithFlags flag _ (fun item => by rw [ArrayItem.keyText?_itemFlagged]) rfl items

end Parts

/-! ### Texts of option arrays -/

/-- Neither the choices of an option array nor one of their groups have a choice or group named
`choices`. -/
def ChoicesArePlain (items : List (ArrayItem Node)) : Prop :=
  ∀ item ∈ items, item.keyText? = some "choices" → ∀ choices ∈ item.value.bind Node.arrayItems?,
    hasChoices choices = false ∧
      ∀ choice ∈ choices, ∀ group ∈ choice.value.bind Node.arrayItems?, hasChoices group = false

instance (items : List (ArrayItem Node)) : Decidable (ChoicesArePlain items) :=
  inferInstanceAs (Decidable (∀ item ∈ items, _ → ∀ choices ∈ item.value.bind Node.arrayItems?, _ ∧ _))

variable {flag : Mark} {β : Type} {read : TextItem → Option β}

theorem FlagBlind.filterMap_map (blind : FlagBlind flag read) (items : List (ArrayItem Node))
    (domain : Option String) :
    ((items.map (Node.itemFlagged flag)).map (⟨·, domain⟩)).filterMap read
      = (items.map (⟨·, domain⟩)).filterMap read := by
  rw [List.map_map, List.filterMap_map, List.filterMap_map]
  simp only [Function.comp_def, blind.item]

theorem FlagBlind.filterMap_itemsWithFlags (blind : FlagBlind flag read) (items : List (ArrayItem Node))
    (domain : Option String) :
    ((itemsWithFlags flag items).map (⟨·, domain⟩)).filterMap read
      = (items.map (⟨·, domain⟩)).filterMap read := by
  have behind : ((flagsFor flag items).map (⟨·, domain⟩)).filterMap read = [] := by
    rw [flagsFor]
    split
    · simp only [List.map_cons, List.map_nil, List.filterMap_cons, List.filterMap_nil, blind.flag]
    · rfl
  rw [itemsWithFlags, List.map_append, List.filterMap_append, behind, List.append_nil, blind.filterMap_map]

theorem FlagBlind.filterMap_getD_itemsWithFlags (blind : FlagBlind flag read) (item : ArrayItem Node)
    (inside : Option (List (ArrayItem Node))) (domain : Option String) :
    (((inside.map (itemsWithFlags flag)).getD [Node.itemFlagged flag item]).map (⟨·, domain⟩)).filterMap read
      = ((inside.getD [item]).map (⟨·, domain⟩)).filterMap read := by
  cases inside with
  | none => exact blind.filterMap_map [item] domain
  | some items => exact blind.filterMap_itemsWithFlags items domain

/-- Where a flag holds no texts itself only the items before it are to be looked at. -/
theorem filterMap_flatMap_itemsWithFlags {texts : ArrayItem Node → List TextItem}
    (silent : (texts (choicesFlag flag)).filterMap read = []) (items : List (ArrayItem Node)) :
    ((itemsWithFlags flag items).flatMap texts).filterMap read
      = items.flatMap fun item => (texts (Node.itemFlagged flag item)).filterMap read := by
  rw [itemsWithFlags, flagsFor, List.flatMap_append, List.filterMap_append, List.flatMap_map,
    List.filterMap_flatMap]
  split
  · simp only [List.flatMap_cons, List.flatMap_nil, List.append_nil, silent]
  · simp only [List.flatMap_nil, List.filterMap_nil, List.append_nil]

theorem FlagBlind.filterMap_constraintItems (blind : FlagBlind flag read)
    (inside : Option (List (ArrayItem Node))) (domain : Option String) :
    ((constraintItems ((inside.map (itemsWithFlags flag)).getD [])).map (⟨·, domain⟩)).filterMap read
      = ((constraintItems (inside.getD [])).map (⟨·, domain⟩)).filterMap read := by
  cases inside with
  | none => rfl
  | some constraints =>
    simp only [Option.map_some, Option.getD_some, constraintItems_itemsWithFlags]
    exact blind.filterMap_map _ _

theorem FlagBlind.filterMap_attributeItems (blind : FlagBlind flag read) (value : Option Node)
    (domain : Option String) :
    ((attributeItems (value.map (Node.flagged flag)).toList).map (⟨·, domain⟩)).filterMap read
      = ((attributeItems value.toList).map (⟨·, domain⟩)).filterMap read := by
  have same : (value.map (Node.flagged flag)).toList = value.toList.map (Node.flagged flag) := by
    cases value <;> rfl
  rw [same, attributeItems_map_flagged]
  exact blind.filterMap_map _ _

theorem FlagBlind.filterMap_knownStrings (blind : FlagBlind flag read) (fields : List (ArrayItem Node))
    (domain : Option String) :
    (((itemsWithFlags flag fields).filter fun field => (field.value.bind Node.knownString?).isSome).map
        (⟨·, domain⟩)).filterMap read
      = ((fields.filter fun field => (field.value.bind Node.knownString?).isSome).map
        (⟨·, domain⟩)).filterMap read := by
  have alike (field : ArrayItem Node) :
      ((Node.itemFlagged flag field).value.bind Node.knownString?).isSome
        = (field.value.bind Node.knownString?).isSome := by
    simp only [ArrayItem.value_itemFlagged, Option.bind_map, Function.comp_def, Node.knownString?_flagged]
  rw [filter_itemsWithFlags flag _ alike rfl]
  exact blind.filterMap_map _ _

/-- With flags both conventions find the texts that the current one finds without them. -/
theorem FlagBlind.filterMap_textItems (blind : FlagBlind flag read) {items : List (ArrayItem Node)}
    (plain : ChoicesArePlain items) (convention : ChoiceConvention) (isField : String → Bool) :
    (textItems convention isField (itemsWithFlags flag items)).filterMap read
      = (textItems .current isField items).filterMap read := by
  have single (item : ArrayItem Node) (domain : Option String) :
      [(⟨Node.itemFlagged flag item, domain⟩ : TextItem)].filterMap read = [⟨item, domain⟩].filterMap read :=
    blind.filterMap_map [item] domain
  have notFalse (value : Option Node) :
      (value.map (Node.flagged flag)).any (Node.isConstant "false") = value.any (Node.isConstant "false") := by
    simp only [Option.any_map, Node.isConstant_flagged]
  simp only [textItems, translationDomain?_itemsWithFlags]
  rw [filterMap_flatMap_itemsWithFlags, List.filterMap_flatMap]
  · refine List.flatMap_congr fun item member => ?_
    simp only [ArrayItem.keyText?_itemFlagged, ArrayItem.value_itemFlagged, bind_arrayItems?_flagged]
    split
    case h_1 => rfl
    case h_2 => exact single item _
    case h_3 => exact single item _
    case h_4 =>
      rw [notFalse]
      split
      · rfl
      · exact blind.filterMap_getD_itemsWithFlags item _ _
    case h_5 =>
      rw [notFalse]
      split
      · rfl
      · exact blind.filterMap_getD_itemsWithFlags item _ _
    case h_6 key =>
      have has : hasChoices items = true := List.any_eq_true.mpr ⟨item, member, by rw [key]; rfl⟩
      have current : (ChoiceConvention.current == .current || choicesAsValues items) = true := rfl
      rw [choicesAsValues_itemsWithFlags flag has, Bool.or_true, current,
        flatMap_choiceItems_itemsWithFlags flag (plain item member key)]
      exact blind.filterMap_map _ _
    case h_7 => exact blind.filterMap_constraintItems _ _
    case h_8 => exact blind.filterMap_attributeItems _ _
    case h_9 =>
      split
      · cases item.value.bind Node.arrayItems? with
        | none => exact single item _
        | some fields => exact blind.filterMap_knownStrings fields _
      · rfl
  · -- the key of a flag is none of the others
    have key : (choicesFlag flag).keyText? = some "choices_as_values" := rfl
    split
    case h_9 =>
      split
      · exact List.filterMap_cons_none (blind.flag _)
      · rfl
    all_goals
      rename_i other
      rw [key] at other
      exact absurd other (by decide)

end FormHarvest
