import FormHarvest.Extraction.Extractor
import FormHarvest.Proofs.SourceRuns
import FormHarvest.Proofs.TranslationUnits

namespace FormHarvest

namespace XmlItem

def isNamed (name : XmlName) : XmlItem → Bool
  | char _ => false
  | element own _ _ => own == name

def attribute? (name : XmlName) : XmlItem → Option String
  | char _ => none
  | element _ attributes _ => attributes.lookup name

/-- The characters that stand directly in an element. -/
def text : XmlItem → String
  | char _ => ""
  | element _ _ content => String.ofList (content.filterMap fun
    | char c => some c
    | element _ _ _ => none)

/-- The elements with a name that stand directly in an element. -/
def children (name : XmlName) : XmlItem → List XmlItem
  | char _ => []
  | element _ _ content => content.filter (isNamed name)

mutual

/-- All elements with a name, in the order of their start tags, at whatever depth they are. -/
def elements (name : XmlName) : XmlItem → List XmlItem
  | char _ => []
  | element own attributes content =>
    (if own = name then [element own attributes content] else []) ++ elementsOfAll name content

def elementsOfAll (name : XmlName) : List XmlItem → List XmlItem
  | [] => []
  | first :: rest => elements name first ++ elementsOfAll name rest

end

theorem elementsOfAll_eq_flatMap (name : XmlName) (items : List XmlItem) :
    elementsOfAll name items = items.flatMap (elements name) := by
  induction items with
  | nil => rfl
  | cons first rest ih => rw [elementsOfAll, ih, List.flatMap_cons]

/-- The lines on which elements stand do not matter to what is made of the elements. -/
theorem flatMap_laidOut {α : Type} {f : XmlItem → List α} (nothing : ∀ c, f (.char c) = []) (depth : Nat)
    (items : List XmlItem) : (Xml.laidOut depth items).flatMap f = items.flatMap f := by
  have lines (depth : Nat) : (Xml.lineItems depth).flatMap f = [] := by
    simp [Xml.lineItems, List.flatMap_map, nothing]
  unfold Xml.laidOut
  split
  · rename_i empty
    rw [List.isEmpty_iff.mp empty]
  · simp [List.flatMap_append, List.flatMap_assoc, lines]

theorem filter_laidOut (name : XmlName) (depth : Nat) (items : List XmlItem) :
    (Xml.laidOut depth items).filter (isNamed name) = items.filter (isNamed name) := by
  rw [← List.filterMap_eq_filter, List.filterMap_eq_flatMap_toList, List.filterMap_eq_flatMap_toList]
  exact flatMap_laidOut (fun c => rfl) depth items

end XmlItem

/-- What the unit of a message says. Texts and attributes that are missing or that stand there more than
once are kept as they are. -/
structure XliffUnit where
  id : Option String
  resname : Option String
  sources : List String
  targets : List String
  alternates : List (Option String × List String)
  places : List (Option String × Option String)
  notes : List (Option String × String)
deriving DecidableEq

namespace XliffUnit

open XliffStyle (xliffName placeNamespaceName)

/-- What an element says as a unit. -/
def ofItem (unit : XmlItem) : XliffUnit where
  id := unit.attribute? ⟨"", "id"⟩
  resname := unit.attribute? ⟨"", "resname"⟩
  sources := (unit.children (xliffName "source")).map XmlItem.text
  targets := (unit.children (xliffName "target")).map XmlItem.text
  alternates := (unit.children (xliffName "alt-trans")).map fun alternate =>
    (alternate.attribute? ⟨XmlScope.xmlSpace, "lang"⟩, (alternate.children (xliffName "target")).map XmlItem.text)
  places := (unit.children ⟨placeNamespaceName, "reference-file"⟩).map fun place =>
    (place.attribute? ⟨"", "path"⟩, place.attribute? ⟨"", "line"⟩)
  notes := (unit.children (xliffName "note")).map fun note => (note.attribute? ⟨"", "extradata"⟩, note.text)

/-- What a document says as a file of units: the units, wherever in it they stand. -/
def ofDocument? (text : String) : Option (List XliffUnit) :=
  (Xml.read? text).map fun root => (root.elements (xliffName "trans-unit")).map ofItem

/-- What the unit of a message is to say: the description or else the identifier as source and target,
the translations by language, the places, and the remarks. -/
def ofMessage (withPlaces : Bool) (message : Message) : XliffUnit :=
  let shown := (message.desc.filter (· != "")).getD message.id
  { id := some message.id
    resname := some message.id
    sources := [shown]
    targets := [shown]
    alternates := (message.translations.mergeSort fun a b => a.1 ≤ b.1).map fun (locale, text) => (some locale, [text])
    places :=
      if withPlaces then
        message.places.map fun place =>
          (some place.path, if place.line = 0 then none else some (toString place.line))
      else []
    notes :=
      (message.desc.filter (· != "")).toList.map (none, ·)
        ++ (message.meaning.filter (· != "")).toList.map fun meaning => (some s!"meaning: {meaning}", meaning) }

theorem text_textItem {text : String} (noReturn : '\r' ∉ text.toList) (name : XmlName)
    (attributes : List (XmlName × String)) : (XliffStyle.textItem name attributes text).text = text := by
  simp [XliffStyle.textItem, XmlItem.text, Xml.unixLines_eq_self noReturn, List.filterMap_map]

section Parts

open XliffStyle (textItem placeItem alternateItem sortedTranslations spoken? shownText)

/-- The places of a message that its unit names. -/
def placeItems (style : XliffStyle) (message : Message) : List XmlItem :=
  if style.withPlaces then message.places.map placeItem else []

/-- The remarks of a message in its unit. -/
def noteItems (message : Message) : List XmlItem :=
  (spoken? message.desc).toList.map (textItem (xliffName "note") [] ·)
    ++ (spoken? message.meaning).toList.map fun meaning =>
      textItem (xliffName "note") [(⟨"", "extradata"⟩, s!"meaning: {meaning}")] meaning

variable (style : XliffStyle) (message : Message) (depth : Nat)

theorem filter_isNamed {items : List XmlItem} {name known : XmlName}
    (named : ∀ item ∈ items, item.isNamed name = (known == name)) :
    items.filter (XmlItem.isNamed name) = if known = name then items else [] := by
  split
  · rename_i same
    exact List.filter_eq_self.mpr fun item member => by simp [named item member, same]
  · rename_i differ
    exact List.filter_eq_nil_iff.mpr fun item member => by simp [named item member, differ]

/-- The parts of a unit by their names. -/
theorem children_unitItem (name : XmlName) :
    (style.unitItem depth message).children name
      = (if xliffName "source" = name then [textItem (xliffName "source") [] (shownText message)] else [])
        ++ (if xliffName "target" = name then
          [textItem (xliffName "target") [(⟨"", "state"⟩, "new")] (shownText message)] else [])
        ++ (if xliffName "alt-trans" = name then
          (sortedTranslations message.translations).map (alternateItem (depth + 1)) else [])
        ++ (if ⟨placeNamespaceName, "reference-file"⟩ = name then placeItems style message else [])
        ++ if xliffName "note" = name then noteItems message else [] := by
  have places : ∀ item ∈ placeItems style message,
      item.isNamed name = (⟨placeNamespaceName, "reference-file"⟩ == name) := by
    unfold placeItems
    split <;> simp [placeItem, textItem, XmlItem.isNamed]
  have notes : ∀ item ∈ noteItems message, item.isNamed name = (xliffName "note" == name) := by
    intro item member
    rcases List.mem_append.mp member with member | member <;>
      obtain ⟨_, -, rfl⟩ := List.mem_map.mp member <;> rfl
  have alternates : ∀ item ∈ (sortedTranslations message.translations).map (alternateItem (depth + 1)),
      item.isNamed name = (xliffName "alt-trans" == name) := by
    intro item member
    obtain ⟨_, -, rfl⟩ := List.mem_map.mp member
    rfl
  have parts : style.unitItems depth message
      = [textItem (xliffName "source") [] (shownText message)]
        ++ [textItem (xliffName "target") [(⟨"", "state"⟩, "new")] (shownText message)]
        ++ (sortedTranslations message.translations).map (alternateItem (depth + 1))
        ++ placeItems style message ++ noteItems message := by
    simp [XliffStyle.unitItems, placeItems, noteItems]
  have single (known : XmlName) (attributes : List (XmlName × String)) (text : String) :
      ∀ item ∈ [textItem known attributes text], item.isNamed name = (known == name) := by
    simp [textItem, XmlItem.isNamed]
  rw [XliffStyle.unitItem, XmlItem.children, XmlItem.filter_laidOut, parts]
  simp only [List.filter_append, filter_isNamed (single _ _ _), filter_isNamed alternates, filter_isNamed places,
    filter_isNamed notes]

theorem readPlace (place : Place) :
    ((placeItem place).attribute? ⟨"", "path"⟩, (placeItem place).attribute? ⟨"", "line"⟩)
      = (some place.path, if place.line = 0 then none else some (toString place.line)) := by
  unfold placeItem
  split <;> rfl

theorem readAlternate {entry : String × String} (noReturn : '\r' ∉ entry.2.toList) :
    ((alternateItem depth entry).attribute? ⟨XmlScope.xmlSpace, "lang"⟩,
        ((alternateItem depth entry).children (xliffName "target")).map XmlItem.text)
      = (some entry.1, [entry.2]) := by
  have target : (alternateItem depth entry).children (xliffName "target")
      = [textItem (xliffName "target") [] entry.2] := by
    rw [alternateItem, XmlItem.children, XmlItem.filter_laidOut]
    rfl
  rw [target, List.map_singleton, text_textItem noReturn]
  rfl

theorem readNotes (noReturn : ∀ text ∈ message.desc.toList ++ message.meaning.toList, '\r' ∉ text.toList) :
    (noteItems message).map (fun note => (note.attribute? ⟨"", "extradata"⟩, note.text))
      = (spoken? message.desc).toList.map (none, ·)
        ++ (spoken? message.meaning).toList.map fun meaning => (some s!"meaning: {meaning}", meaning) := by
  have spoken {remark : Option String} {text : String} (member : text ∈ (spoken? remark).toList) :
      text ∈ remark.toList := by
    rw [Option.mem_toList] at member ⊢
    exact (Option.filter_eq_some_iff.mp member).1
  rw [noteItems, List.map_append, List.map_map, List.map_map]
  congr 1 <;> refine List.map_congr_left fun text member => ?_
  · exact congrArg (none, ·) (text_textItem (noReturn text (List.mem_append_left _ (spoken member))) _ _)
  · exact congrArg (some s!"meaning: {text}", ·)
      (text_textItem (noReturn text (List.mem_append_right _ (spoken member))) _ _)

theorem shownText_eq (message : Message) : (message.desc.filter (· != "")).getD message.id = shownText message := by
  unfold shownText
  cases message.desc with
  | none => rfl
  | some desc => by_cases empty : desc = "" <;> simp [Option.filter, empty]

theorem ofItem_unitItem {style : XliffStyle} {message : Message} (depth : Nat)
    (noReturn : ∀ text ∈ style.messageTexts message, '\r' ∉ text.toList) :
    ofItem (style.unitItem depth message) = ofMessage style.withPlaces message := by
  have apart : XliffStyle.namespaceName ≠ placeNamespaceName := by decide
  have sources : (style.unitItem depth message).children (xliffName "source")
      = [textItem (xliffName "source") [] (shownText message)] := by
    simp [children_unitItem, xliffName, apart.symm]
  have targets : (style.unitItem depth message).children (xliffName "target")
      = [textItem (xliffName "target") [(⟨"", "state"⟩, "new")] (shownText message)] := by
    simp [children_unitItem, xliffName, apart.symm]
  have alternates : (style.unitItem depth message).children (xliffName "alt-trans")
      = (sortedTranslations message.translations).map (alternateItem (depth + 1)) := by
    simp [children_unitItem, xliffName, apart.symm]
  have places : (style.unitItem depth message).children ⟨placeNamespaceName, "reference-file"⟩
      = placeItems style message := by
    simp [children_unitItem, xliffName, apart]
  have notes : (style.unitItem depth message).children (xliffName "note") = noteItems message := by
    simp [children_unitItem, xliffName, apart.symm]
  have remarks : ∀ text ∈ message.desc.toList ++ message.meaning.toList, '\r' ∉ text.toList := by
    exact fun text member => noReturn text (.tail _ (List.mem_append_left _ (List.mem_append_left _ member)))
  have shown : '\r' ∉ (shownText message).toList := by
    have ofId : '\r' ∉ message.id.toList := noReturn _ List.mem_cons_self
    unfold shownText
    split
    · rename_i desc is
      have ofDesc : '\r' ∉ desc.toList := remarks desc (by simp [is])
      split <;> assumption
    · exact ofId
  have translations : ∀ entry ∈ sortedTranslations message.translations, '\r' ∉ entry.2.toList := by
    intro entry member
    refine noReturn _ (.tail _ (List.mem_append_left _ (List.mem_append_right _ ?_)))
    exact List.mem_flatMap.mpr ⟨entry, List.mem_mergeSort.mp member, by simp⟩
  have shownPlaces : (placeItems style message).map
      (fun place => (place.attribute? ⟨"", "path"⟩, place.attribute? ⟨"", "line"⟩))
        = if style.withPlaces then
            message.places.map fun place =>
              (some place.path, if place.line = 0 then none else some (toString place.line))
          else [] := by
    unfold placeItems
    split
    · simp only [List.map_map, Function.comp_def, readPlace]
    · rfl
  unfold ofItem ofMessage
  rw [sources, targets, alternates, places, notes, readNotes message remarks, shownText_eq, shownPlaces]
  simp only [List.map_singleton, text_textItem shown, List.map_map, Function.comp_def]
  rw [List.map_congr_left fun entry member => readAlternate (depth + 1) (translations entry member)]
  rfl

end Parts

end XliffUnit

namespace XliffStyle

/-- A file is read as it was meant, unless some text from outside holds a character that may not stand
in a document. -/
theorem read?_write (style : XliffStyle) (messages : List Message) (locale : String) :
    Xml.read? (style.write messages locale)
      = if (style.fileTexts messages locale).all Xml.isLegal then some (style.rootItem messages locale) else none := by
  rw [write_eq, Xml.read?_document (isNamed_root style messages locale), all_isLegal_root, item?_root]

/-- A file is well-formed exactly if all texts from outside in it hold only characters that may stand in
a document. Whatever else they hold, they break no markup. -/
theorem write_isWellFormed_iff (style : XliffStyle) (messages : List Message) (locale : String) :
    Xml.IsWellFormed (style.write messages locale) ↔
      ∀ text ∈ style.fileTexts messages locale, Xml.isLegal text = true := by
  rw [Xml.IsWellFormed, read?_write, ← List.all_eq_true]
  split <;> simp_all

/-- A label with a control character that its escape names. -/
def controlLabel : String := "<?php $builder->add('name', null, ['label' => \"A\\x01B\"]);"

theorem controlLabel_isNotWellFormed :
    ∃ unit log extraction messages, parseSource "NameType.php" controlLabel = .ok (unit, log) ∧
      ({} : Extractor).run "NameType.php" unit.nodes .empty = (none, extraction) ∧
      extraction.result.complete = true ∧
      TranslationWriter.groups extraction.catalogue = [("messages", messages)] ∧
      messages = [{ id := "A\x01B", places := [⟨"NameType.php", 1⟩] }] ∧
      ¬Xml.IsWellFormed (({} : XliffStyle).write messages "de") := by
  obtain ⟨unit, log, extraction, parsed, run, complete, checked⟩ := Extractor.exists_of_ofSource? (show
    (({} : Extractor).ofSource? "NameType.php" controlLabel).any (fun found =>
      decide (TranslationWriter.groups found.2.catalogue
        = [("messages", [{ id := "A\x01B", places := [⟨"NameType.php", 1⟩] }])])) = true from by decide +kernel)
  refine ⟨unit, log, extraction, _, parsed, run, complete, of_decide_eq_true checked, rfl, ?_⟩
  rw [Xml.IsWellFormed, read?_write]
  decide +kernel

section Units

variable {name : XmlName}

theorem elements_textItem {known : XmlName} (differ : known ≠ name) (attributes : List (XmlName × String))
    (text : String) : (textItem known attributes text).elements name = [] := by
  rw [textItem, XmlItem.elements, if_neg differ, List.nil_append, XmlItem.elementsOfAll_eq_flatMap, List.flatMap_map]
  simp [XmlItem.elements]

theorem elements_around {known : XmlName} (attributes : List (XmlName × String)) (depth : Nat) (items : List XmlItem) :
    (XmlItem.element known attributes (Xml.laidOut depth items)).elements name
      = (if known = name then [XmlItem.element known attributes (Xml.laidOut depth items)] else [])
        ++ items.flatMap (XmlItem.elements name) := by
  rw [XmlItem.elements, XmlItem.elementsOfAll_eq_flatMap, XmlItem.flatMap_laidOut fun c => by rw [XmlItem.elements]]

/-- There are no units in a unit. -/
theorem elements_unitItem (style : XliffStyle) (depth : Nat) (message : Message) :
    (style.unitItem depth message).elements (xliffName "trans-unit") = [style.unitItem depth message] := by
  have differ (name : String) (other : name ≠ "trans-unit") : xliffName name ≠ xliffName "trans-unit" := by
    simpa [xliffName] using other
  have inside : ∀ item ∈ style.unitItems depth message, item.elements (xliffName "trans-unit") = [] := by
    simp only [unitItems, List.forall_mem_append, List.forall_mem_map, List.forall_mem_cons]
    refine ⟨⟨⟨⟨⟨elements_textItem (differ _ (by decide)) _ _, elements_textItem (differ _ (by decide)) _ _,
      List.forall_mem_nil _⟩, fun entry _ => ?_⟩, fun item member => ?_⟩,
      fun desc _ => elements_textItem (differ _ (by decide)) _ _⟩,
      fun meaning _ => elements_textItem (differ _ (by decide)) _ _⟩
    · rw [alternateItem, elements_around, if_neg (differ _ (by decide)), List.nil_append, List.flatMap_singleton,
        elements_textItem (differ _ (by decide))]
    · split at member
      · obtain ⟨place, -, rfl⟩ := List.mem_map.mp member
        exact elements_textItem (by decide) _ _
      · cases member
  rw [unitItem, elements_around, List.flatMap_eq_nil_iff.mpr inside, if_pos rfl, List.append_nil]

/-- The units that stand in a file are those of its messages. -/
theorem elements_rootItem (style : XliffStyle) (messages : List Message) (locale : String) :
    (style.rootItem messages locale).elements (xliffName "trans-unit") = messages.map (style.unitItem 3) := by
  have header : headerItem.elements (xliffName "trans-unit") = [] := by
    rw [headerItem, elements_around, if_neg (by decide), List.nil_append, List.flatMap_cons,
      elements_textItem (by decide), List.flatMap_cons, elements_textItem (by decide)]
    rfl
  have units : (messages.map (style.unitItem 3)).flatMap (XmlItem.elements (xliffName "trans-unit"))
      = messages.map (style.unitItem 3) := by
    simp only [List.flatMap_map, elements_unitItem]
    exact List.flatMap_pure_eq_map _ messages
  have differ (name : String) (other : name ≠ "trans-unit") : xliffName name ≠ xliffName "trans-unit" := by
    simpa [xliffName] using other
  rw [rootItem, elements_around, if_neg (differ _ (by decide)), List.nil_append, List.flatMap_singleton, fileItem,
    elements_around, if_neg (differ _ (by decide)), List.nil_append, List.flatMap_cons, header, List.nil_append,
    List.flatMap_singleton, elements_around, if_neg (differ _ (by decide)), List.nil_append, units]

end Units

/-- Reading a file gives the messages back: one unit for each, in their order, which says what the message
says. Of the texts in the file those of the messages must hold no carriage return, and all of them only
characters that may stand in a document. -/
theorem ofDocument?_write (style : XliffStyle) (messages : List Message) (locale : String)
    (legal : ∀ text ∈ style.fileTexts messages locale, Xml.isLegal text = true)
    (noReturn : ∀ message ∈ messages, ∀ text ∈ style.messageTexts message, '\r' ∉ text.toList) :
    XliffUnit.ofDocument? (style.write messages locale)
      = some (messages.map (XliffUnit.ofMessage style.withPlaces)) := by
  rw [XliffUnit.ofDocument?, read?_write, if_pos (List.all_eq_true.mpr legal), Option.map_some, elements_rootItem, List.map_map]
  exact congrArg some (List.map_congr_left fun message member => XliffUnit.ofItem_unitItem 3 (noReturn message member))

/-- A message whose texts look like the markup around them. -/
def markupMessage : Message where
  id := "</source><trans-unit id=\"x\">"
  places := [⟨"a&b.php", 3⟩, ⟨"\"c\".php", 0⟩]
  desc := some "&lt; ]]> <!-- "
  translations := [("de", "<target/>"), ("cs", "\n")]

theorem markupMessage_is_read_back :
    XliffUnit.ofDocument? (({} : XliffStyle).write [markupMessage, { id := "Name" }] "de")
      = some [
          { id := some markupMessage.id
            resname := some markupMessage.id
            sources := ["&lt; ]]> <!-- "]
            targets := ["&lt; ]]> <!-- "]
            alternates := [(some "cs", ["\n"]), (some "de", ["<target/>"])]
            places := [(some "a&b.php", some "3"), (some "\"c\".php", none)]
            notes := [(none, "&lt; ]]> <!-- ")] },
          { id := some "Name", resname := some "Name", sources := ["Name"], targets := ["Name"]
            alternates := [], places := [], notes := [] }] := by
  rw [ofDocument?_write {} [markupMessage, { id := "Name" }] "de" (by decide +kernel) (by decide +kernel)]
  cbv

/-- A language is not checked for characters that may not stand in a document. -/
theorem write_controlLocale_isNotRead :
    XliffUnit.ofDocument? (({} : XliffStyle).write [{ id := "Name" }] "\x01") = none := by
  rw [XliffUnit.ofDocument?, read?_write]
  decide +kernel

end XliffStyle

end FormHarvest
