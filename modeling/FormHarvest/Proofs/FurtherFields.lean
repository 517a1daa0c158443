import FormHarvest.Proofs.ChoiceConventions
import Mathlib.Data.List.Flatten

namespace FormHarvest

/-- The texts that one item of an option array holds, each with its domain if the array fixes one. -/
def itemTexts (convention : ChoiceConvention) (isField : String → Bool) (items : List (ArrayItem Node))
    (item : ArrayItem Node) : List TextItem :=
  let own := translationDomain? items
  let inside := (item.value.bind Node.arrayItems?)
  match item.keyText? with
  | none => []
  | some "label" => [⟨item, own⟩]
  | some "invalid_message" => [⟨item, some constraintDomain⟩]
  | some "placeholder" | some "empty_value" =>
    if item.value.any (Node.isConstant "false") then []
    else (inside.getD [item]).map (⟨·, own⟩)
  | some "choices" =>
    let invert := convention == .current || choicesAsValues items
    ((inside.getD []).flatMap (choiceItems invert)).map (⟨·, own⟩)
  | some "constraints" => (constraintItems (inside.getD [])).map (⟨·, some constraintDomain⟩)
  | some "attr" => (attributeItems item.value.toList).map (⟨·, own⟩)
  | some other =>
    if isField other then
      match inside with
      | some fields =>
        (fields.filter fun field => (field.value.bind Node.knownString?).isSome).map (⟨·, own⟩)
      | none => [⟨item, own⟩]
    else []

theorem textItems_eq_flatMap (convention : ChoiceConvention) (isField : String → Bool)
    (items : List (ArrayItem Node)) :
    textItems convention isField items = items.flatMap (itemTexts convention isField items) := rfl

/-- The options that are read in a way of their own. Of all others it is asked whether they hold texts. -/
def handledFields : List String :=
  ["label", "invalid_message", "placeholder", "empty_value", "choices", "constraints", "attr"]

/-- The option of which it is asked for an item whether it holds texts. -/
def ArrayItem.askedField? (item : ArrayItem Node) : Option String :=
  item.keyText?.filter fun name => !handledFields.contains name

section ItemTexts

variable {convention : ChoiceConvention} {isField isField' : String → Bool} {items : List (ArrayItem Node)}
  {item : ArrayItem Node}

/-- The texts of an item hang on the one question that is asked for it. -/
theorem itemTexts_congr (same : ∀ name ∈ item.askedField?, isField name = isField' name) :
    itemTexts convention isField items item = itemTexts convention isField' items item := by
  unfold itemTexts
  split
  case h_9 other noLabel noMessage noPlaceholder noEmpty noChoices noConstraints noAttr named =>
    have asked : item.askedField? = some other := by
      simp only [ArrayItem.askedField?, named, Option.filter_some, handledFields]
      simp_all
    rw [same other asked]
  all_goals rfl

theorem itemTexts_sublist (further : ∀ name, isField name = true → isField' name = true) :
    (itemTexts convention isField items item).Sublist (itemTexts convention isField' items item) := by
  by_cases agree : ∀ name ∈ item.askedField?, isField name = isField' name
  · rw [itemTexts_congr agree]
  · simp only [not_forall] at agree
    obtain ⟨name, asked, differs⟩ := agree
    have isNone : isField name = false :=
      Bool.eq_false_iff.mpr fun holds => differs (holds.trans (further name holds).symm)
    obtain ⟨named, unhandled⟩ := Option.filter_eq_some_iff.mp asked
    have nothing : itemTexts convention isField items item = [] := by
      unfold itemTexts
      rw [named]
      split <;> simp_all [handledFields]
    rw [nothing]
    exact List.nil_sublist _

theorem textItems_sublist (further : ∀ name, isField name = true → isField' name = true) :
    (textItems convention isField items).Sublist (textItems convention isField' items) :=
  List.Sublist.flatMap_right items fun _ _ => itemTexts_sublist further

end ItemTexts

namespace Catalogue

/-- Where which texts were found: the identifier and the domain of each message with each of its places. -/
def findings (catalogue : Catalogue) : List (String × Option String × Place) :=
  catalogue.messages.flatMap fun message => message.places.map (message.id, message.domain, ·)

theorem mem_findings_iff {catalogue : Catalogue} {id : String} {domain : Option String} {place : Place} :
    (id, domain, place) ∈ catalogue.findings ↔
      ∃ message ∈ catalogue.messages, message.key = (id, domain) ∧ place ∈ message.places := by
  simp only [findings, List.mem_flatMap, List.mem_map, Prod.mk.injEq, Message.key]
  constructor
  · rintro ⟨message, member, _, isPlace, sameId, sameDomain, rfl⟩
    exact ⟨message, member, ⟨sameId, sameDomain⟩, isPlace⟩
  · rintro ⟨message, member, ⟨sameId, sameDomain⟩, isPlace⟩
    exact ⟨message, member, place, isPlace, sameId, sameDomain, rfl⟩

theorem mem_findings_add {catalogue : Catalogue} {new : Message} {id : String} {domain : Option String}
    {place : Place} :
    (id, domain, place) ∈ (catalogue.add new).findings ↔
      (id, domain, place) ∈ catalogue.findings ∨ new.key = (id, domain) ∧ place ∈ new.places := by
  have inserted (messages : List Message) :
      (∃ message ∈ insertMessage new messages, message.key = (id, domain) ∧ place ∈ message.places) ↔
        (∃ message ∈ messages, message.key = (id, domain) ∧ place ∈ message.places) ∨
          new.key = (id, domain) ∧ place ∈ new.places := by
    induction messages with
    | nil => simp [insertMessage]
    | cons first rest ih =>
      rw [insertMessage]
      split
      · rename_i same
        simp only [List.exists_mem_cons_iff, Message.key_absorb, mem_places_absorb, same, and_or_left]
        exact or_right_comm
      · simp only [List.exists_mem_cons_iff, ih, or_assoc]
  simp only [mem_findings_iff]
  exact inserted catalogue.messages

/-- What is found in a catalogue after messages were added is what was there and what they tell of. -/
theorem mem_findings_addAll {catalogue : Catalogue} {messages : List Message} {id : String}
    {domain : Option String} {place : Place} :
    (id, domain, place) ∈ (catalogue.addAll messages).findings ↔
      (id, domain, place) ∈ catalogue.findings ∨
        ∃ message ∈ messages, message.key = (id, domain) ∧ place ∈ message.places := by
  induction messages generalizing catalogue with
  | nil => simp
  | cons first rest ih =>
    show (id, domain, place) ∈ ((catalogue.add first).addAll rest).findings ↔ _
    rw [ih, mem_findings_add, List.exists_mem_cons_iff, or_assoc]

theorem findings_addAll_subset (catalogue : Catalogue) {messages further : List Message}
    (within : messages ⊆ further) :
    (catalogue.addAll messages).findings ⊆ (catalogue.addAll further).findings := by
  rintro ⟨id, domain, place⟩ found
  rw [mem_findings_addAll] at found ⊢
  exact found.imp_right fun ⟨message, member, same⟩ => ⟨message, within member, same⟩

end Catalogue

namespace Extractor

/-- An extractor with further options that hold texts. -/
structure Widens (one other : Extractor) : Prop where
  convention : other.convention = one.convention
  isField : ∀ name, one.isField name = true → other.isField name = true

variable {one other : Extractor} {nodes : List Node}

/-- With further options an extractor finds what it found without them, in the same order, and more. -/
structure FindsWithin (path : String) (one other : Extractor) (nodes : List Node) : Prop where
  stored : (one.storedMessages path nodes).Sublist (other.storedMessages path nodes)
  waiting : (one.waitingEntries path nodes).Sublist (other.waitingEntries path nodes)

theorem FindsWithin.left {path : String} (within : FindsWithin path one other nodes) :
    (one.leftMessages path nodes).Sublist (other.leftMessages path nodes) :=
  within.waiting.map _

namespace Widens

variable (widens : one.Widens other) (path : String)

include widens

theorem textItems_sublist (items : List (ArrayItem Node)) :
    (textItems one.convention one.isField items).Sublist (textItems other.convention other.isField items) := by
  rw [widens.convention]
  exact FormHarvest.textItems_sublist widens.isField

theorem readings_sublist (node : Node) : (one.readings path node).Sublist (other.readings path node) := by
  unfold readings
  split
  · exact (widens.textItems_sublist _).filterMap _
  · exact .refl _

theorem diagnosticsAt_sublist (node : Node) :
    (one.diagnosticsAt path node).Sublist (other.diagnosticsAt path node) := by
  unfold diagnosticsAt
  split
  · exact (widens.textItems_sublist _).filterMap _
  · exact .refl _

/-- The default domains of classes do not hang on the options that hold texts, so a text that is found in
both ways has one domain. -/
theorem findsWithin (nodes : List Node) : FindsWithin path one other nodes := by
  induction nodes using Node.forest_induction with
  | nil =>
    exact ⟨by simp only [storedMessages_nil, List.Sublist.refl], by simp only [waitingEntries_nil, List.Sublist.refl]⟩
  | cons node rest inside behind =>
    have here := widens.readings_sublist path node
    constructor
    · rw [storedMessages_cons, storedMessages_cons]
      refine (((here.filterMap _).append inside.stored).append ?_).append behind.stored
      split
      · exact inside.left
      · exact .refl _
    · rw [waitingEntries_cons, waitingEntries_cons]
      refine ((here.filterMap _).append ?_).append behind.waiting
      split
      · exact .refl _
      · exact inside.waiting

theorem addedMessages_sublist (nodes : List Node) :
    (one.addedMessages path nodes).Sublist (other.addedMessages path nodes) :=
  (widens.findsWithin path nodes).stored.append (widens.findsWithin path nodes).left

theorem diagnostics_sublist (nodes : List Node) :
    ((walk nodes).flatMap (one.diagnosticsAt path)).Sublist ((walk nodes).flatMap (other.diagnosticsAt path)) :=
  List.Sublist.flatMap_right _ fun node _ => widens.diagnosticsAt_sublist path node

end Widens

end Extractor

end FormHarvest
