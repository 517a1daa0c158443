import FormHarvest.Proofs.WrittenGroups
import FormHarvest.Proofs.WrittenWords
import FormHarvest.Proofs.XmlDocuments

namespace FormHarvest

namespace XliffStyle

/-- A name of the format of translation files. -/
def xliffName (name : String) : XmlName := ⟨namespaceName, name⟩

/-- What is declared inside the root, with or without the namespace of places. -/
def scope (anyPlace : Bool) : XmlScope :=
  ("", namespaceName) :: (if anyPlace then [("jms", placeNamespaceName)] else []) ++ XmlScope.ofDocument

/-- The element that is read where one with a text is written. -/
def textItem (name : XmlName) (attributes : List (XmlName × String)) (text : String) : XmlItem :=
  .element name attributes ((Xml.unixLines text.toList).map .char)

def placeItem (place : Place) : XmlItem :=
  textItem ⟨placeNamespaceName, "reference-file"⟩
    ((⟨"", "path"⟩, place.path) :: if place.line = 0 then [] else [(⟨"", "line"⟩, toString place.line)]) ""

def alternateItem (depth : Nat) (entry : String × String) : XmlItem :=
  .element (xliffName "alt-trans") [(⟨XmlScope.xmlSpace, "lang"⟩, entry.1)]
    (Xml.laidOut depth [textItem (xliffName "target") [] entry.2])

def unitItems (style : XliffStyle) (depth : Nat) (message : Message) : List XmlItem :=
  [textItem (xliffName "source") [] (shownText message),
      textItem (xliffName "target") [(⟨"", "state"⟩, "new")] (shownText message)]
    ++ (sortedTranslations message.translations).map (alternateItem (depth + 1))
    ++ (if style.withPlaces then message.places.map placeItem else [])
    ++ (spoken? message.desc).toList.map (textItem (xliffName "note") [] ·)
    ++ (spoken? message.meaning).toList.map fun meaning =>
      textItem (xliffName "note") [(⟨"", "extradata"⟩, s!"meaning: {meaning}")] meaning

/-- The unit that is read where that of a message is written. -/
def unitItem (style : XliffStyle) (depth : Nat) (message : Message) : XmlItem :=
  .element (xliffName "trans-unit") [(⟨"", "id"⟩, message.id), (⟨"", "resname"⟩, message.id)]
    (Xml.laidOut depth (style.unitItems depth message))

def headerItem : XmlItem :=
  .element (xliffName "header") [] (Xml.laidOut 2 [
    textItem (xliffName "tool") [(⟨"", "tool-id"⟩, "FormLocalizer"), (⟨"", "tool-name"⟩, "FormLocalizer")] "",
    textItem (xliffName "note") []
      "The source node in most cases contains the sample message as written by the developer."])

def fileItem (style : XliffStyle) (messages : List Message) (locale : String) : XmlItem :=
  .element (xliffName "file")
    ([(⟨"", "source-language"⟩, style.sourceLanguage), (⟨"", "target-language"⟩, locale),
      (⟨"", "datatype"⟩, "plaintext"), (⟨"", "original"⟩, "not.available")]
        ++ style.date.toList.map fun date => (⟨"", "date"⟩, date))
    (Xml.laidOut 1 [headerItem, .element (xliffName "body") [] (Xml.laidOut 2 (messages.map (style.unitItem 3)))])

/-- The root that is read where that of a file for messages in a language is written. -/
def rootItem (style : XliffStyle) (messages : List Message) (locale : String) : XmlItem :=
  .element (xliffName "xliff") [(⟨"", "version"⟩, "1.2")] (Xml.laidOut 0 [style.fileItem messages locale])

section Reading

variable {anyPlace : Bool} {style : XliffStyle} {message : Message}

/-- Whether a name has no prefix and declares no namespace. -/
def isPlain (name : String) : Bool :=
  name != "xmlns" && decide (XmlScope.parts? name = some ("", name))

/-- Inside the root a name without a prefix is one of the format, or that of an attribute without a
namespace. -/
theorem knows_plain {name : String} {names : List String} (plain : (name :: names).all isPlain = true)
    (distinct : names.Nodup) :
    (scope anyPlace).knows name names (xliffName name) (names.map (⟨"", ·⟩)) = true := by
  simp only [List.all_eq_true, List.forall_mem_cons, isPlain, Bool.and_eq_true, bne_iff_ne, decide_eq_true_eq] at plain
  have element : (scope anyPlace).elementName? name = some (xliffName name) := by
    rw [XmlScope.elementName?, plain.1.2]
    rfl
  have others : names.mapM (scope anyPlace).attributeName? = some (names.map (⟨"", ·⟩)) := by
    have each : ∀ other ∈ names, (scope anyPlace).attributeName? other = some ⟨"", other⟩ := by
      intro other member
      rw [XmlScope.attributeName?, (plain.2 other member).2]
      rfl
    clear plain distinct
    induction names with
    | nil => rfl
    | cons first rest ih =>
      rw [List.forall_mem_cons] at each
      rw [List.mapM_cons, each.1, ih each.2]
      rfl
  have undeclared : ∀ other ∈ names, XmlScope.declared? other = none := by
    intro other member
    rw [XmlScope.declared?, if_neg (plain.2 other member).1, (plain.2 other member).2]
    rfl
  have apart : (names.map fun other => (⟨"", other⟩ : XmlName)).Nodup :=
    distinct.map fun _ _ same => (XmlName.mk.inj same).2
  simpa [XmlScope.knows, element, others, apart, distinct] using undeclared

theorem item?_leaf {name : String} (names values : List String)
    (plain : (name :: names).all isPlain = true ∧ names.Nodup) (paired : names.length = values.length) (depth : Nat)
    (text : String) :
    (Xml.leaf name (names.zip values) text).normal.item? (scope anyPlace) depth
      = some (textItem (xliffName name) ((names.map (⟨"", ·⟩)).zip values) text) :=
  Xml.item?_leaf names values _ (knows_plain plain.1 plain.2) paired depth text

theorem item?_branch {name : String} (names values : List String)
    (plain : (name :: names).all isPlain = true ∧ names.Nodup) (paired : names.length = values.length) {depth : Nat}
    {children : List Xml} {items : List XmlItem} (inside : Xml.Reads (scope anyPlace) (depth + 1) children items) :
    (Xml.branch name (names.zip values) children).normal.item? (scope anyPlace) depth
      = some (.element (xliffName name) ((names.map (⟨"", ·⟩)).zip values) (Xml.laidOut depth items)) :=
  Xml.item?_branch names values _ (knows_plain plain.1 plain.2) paired inside

theorem item?_place (depth : Nat) (place : Place) :
    (placeElement place).normal.item? (scope true) depth = some (placeItem place) := by
  unfold placeElement placeItem
  split
  · exact Xml.item?_leaf ["path"] [place.path] [⟨"", "path"⟩] (by decide) rfl depth ""
  · exact Xml.item?_leaf ["path", "line"] [place.path, toString place.line] [⟨"", "path"⟩, ⟨"", "line"⟩]
      (by decide) rfl depth ""

theorem item?_note (depth : Nat) (text : String) :
    (Xml.leaf "note" [] text).normal.item? (scope anyPlace) depth = some (textItem (xliffName "note") [] text) :=
  item?_leaf [] [] (by decide) rfl depth text

theorem item?_alternate (depth : Nat) (entry : String × String) :
    (Xml.branch "alt-trans" [("xml:lang", entry.1)] [.leaf "target" [] entry.2]).normal.item? (scope anyPlace) depth
      = some (alternateItem depth entry) := by
  have target : Xml.Reads (scope anyPlace) (depth + 1) [.leaf "target" [] entry.2]
      [textItem (xliffName "target") [] entry.2] :=
    .cons (item?_leaf [] [] (by decide) rfl _ _) .nothing
  exact Xml.item?_branch ["xml:lang"] [entry.1] [⟨XmlScope.xmlSpace, "lang"⟩]
    (by cases anyPlace <;> decide) rfl target

/-- A unit is read as it was meant, if the namespace of its places is declared. -/
theorem item?_unit (declared : style.withPlaces = true → message.places ≠ [] → anyPlace = true) (depth : Nat) :
    (style.unitOf message).normal.item? (scope anyPlace) depth = some (style.unitItem depth message) := by
  have source : (Xml.leaf "source" [] (shownText message)).normal.item? (scope anyPlace) (depth + 1)
      = some (textItem (xliffName "source") [] (shownText message)) :=
    item?_leaf [] [] (by decide) rfl _ _
  have target : (Xml.leaf "target" [("state", "new")] (shownText message)).normal.item? (scope anyPlace) (depth + 1)
      = some (textItem (xliffName "target") [(⟨"", "state"⟩, "new")] (shownText message)) :=
    item?_leaf ["state"] ["new"] (by decide) rfl _ _
  have places : Xml.Reads (scope anyPlace) (depth + 1) (if style.withPlaces then message.places.map placeElement else [])
      (if style.withPlaces then message.places.map placeItem else []) := by
    split
    · rename_i withPlaces
      refine .map fun place member => ?_
      rw [declared withPlaces (List.ne_nil_of_mem member)]
      exact item?_place _ place
    · exact .nothing
  have meanings (meaning : String) :
      (Xml.leaf "note" [("extradata", s!"meaning: {meaning}")] meaning).normal.item? (scope anyPlace) (depth + 1)
        = some (textItem (xliffName "note") [(⟨"", "extradata"⟩, s!"meaning: {meaning}")] meaning) :=
    item?_leaf ["extradata"] [s!"meaning: {meaning}"] (by decide) rfl _ _
  have inside : Xml.Reads (scope anyPlace) (depth + 1) _ (style.unitItems depth message) :=
    ((((Xml.Reads.cons source (.cons target .nothing)).append (.map fun entry _ => item?_alternate _ entry)).append
      places).append (.map fun desc _ => item?_note _ desc)).append (.map fun meaning _ => meanings meaning)
  exact item?_branch ["id", "resname"] [message.id, message.id] (by decide) rfl inside

theorem item?_header : header.normal.item? (scope anyPlace) 2 = some headerItem := by
  have tool : (Xml.leaf "tool" [("tool-id", "FormLocalizer"), ("tool-name", "FormLocalizer")] "").normal.item?
      (scope anyPlace) 3 = some (textItem (xliffName "tool")
        [(⟨"", "tool-id"⟩, "FormLocalizer"), (⟨"", "tool-name"⟩, "FormLocalizer")] "") :=
    item?_leaf ["tool-id", "tool-name"] ["FormLocalizer", "FormLocalizer"] (by decide) rfl 3 ""
  exact item?_branch [] [] (by decide) rfl (.cons tool (.cons (item?_note 3 _) .nothing))

/-- What the root declares is known inside it. -/
theorem tag?_root (anyPlace : Bool) :
    XmlScope.ofDocument.tag? "xliff"
        ((("xmlns", namespaceName) :: if anyPlace then [("xmlns:jms", placeNamespaceName)] else [])
          ++ [("version", "1.2")])
      = some ⟨xliffName "xliff", [(⟨"", "version"⟩, "1.2")], scope anyPlace⟩ := by
  cases anyPlace <;> decide

theorem item?_root (style : XliffStyle) (messages : List Message) (locale : String) :
    (style.root messages locale).normal.item? .ofDocument 0 = some (style.rootItem messages locale) := by
  let anyPlace := style.withPlaces && messages.any fun message => !message.places.isEmpty
  have units : Xml.Reads (scope anyPlace) 3 (messages.map style.unitOf) (messages.map (style.unitItem 3)) := by
    refine .map fun message member => item?_unit (fun withPlaces nonempty => ?_) 3
    simp only [anyPlace, withPlaces, Bool.true_and, List.any_eq_true]
    exact ⟨message, member, by simp [nonempty]⟩
  have body : (Xml.branch "body" [] (messages.map style.unitOf)).normal.item? (scope anyPlace) 2
      = some (.element (xliffName "body") [] (Xml.laidOut 2 (messages.map (style.unitItem 3)))) :=
    item?_branch [] [] (by decide) rfl units
  have parts : Xml.Reads (scope anyPlace) 2 [header, .branch "body" [] (messages.map style.unitOf)] _ :=
    .cons item?_header (.cons body .nothing)
  have file : (Xml.branch "file" ([("source-language", style.sourceLanguage), ("target-language", locale),
        ("datatype", "plaintext"), ("original", "not.available")] ++ style.date.toList.map fun date => ("date", date))
          [header, .branch "body" [] (messages.map style.unitOf)]).normal.item? (scope anyPlace) 1
      = some (style.fileItem messages locale) := by
    unfold fileItem
    cases style.date with
    | none =>
      exact item?_branch ["source-language", "target-language", "datatype", "original"]
        [style.sourceLanguage, locale, "plaintext", "not.available"] (by decide) rfl parts
    | some date =>
      exact item?_branch ["source-language", "target-language", "datatype", "original", "date"]
        [style.sourceLanguage, locale, "plaintext", "not.available", date] (by decide) rfl parts
  have inside : Xml.Reads (scope anyPlace) 1 [_] [style.fileItem messages locale] := .cons file .nothing
  rw [root, Xml.normal, Xml.item?, tag?_root, Option.bind_some, Xml.normalAll_eq_map, inside]
  rfl

end Reading

section Names

open Xml in
theorem isName_names :
    isName "xliff" = true ∧ isName "file" = true ∧ isName "header" = true ∧
    isName "tool" = true ∧ isName "note" = true ∧ isName "body" = true ∧
    isName "trans-unit" = true ∧ isName "source" = true ∧ isName "target" = true ∧
    isName "alt-trans" = true ∧ isName "jms:reference-file" = true ∧ isName "xmlns" = true ∧
    isName "xmlns:jms" = true ∧ isName "version" = true ∧ isName "source-language" = true ∧
    isName "target-language" = true ∧ isName "datatype" = true ∧ isName "original" = true ∧
    isName "date" = true ∧ isName "tool-id" = true ∧ isName "tool-name" = true ∧
    isName "id" = true ∧ isName "resname" = true ∧ isName "state" = true ∧
    isName "xml:lang" = true ∧ isName "path" = true ∧ isName "line" = true ∧
    isName "extradata" = true := by
  decide

theorem isNamed_placeElement (place : Place) : (placeElement place).isNamed = true := by
  unfold placeElement
  split <;> simp [Xml.isNamed, isName_names]

theorem isNamed_unitOf (style : XliffStyle) (message : Message) : (style.unitOf message).isNamed = true := by
  have places : (if style.withPlaces then message.places.map placeElement else []).all Xml.isNamed = true := by
    split <;> simp [isNamed_placeElement]
  simp [unitOf, Xml.isNamed, Xml.areNamed, Xml.areNamed_eq_all, isName_names, places, Function.comp_def]

theorem isNamed_root (style : XliffStyle) (messages : List Message) (locale : String) :
    (style.root messages locale).isNamed = true := by
  cases anyPlace : style.withPlaces && messages.any fun message => !message.places.isEmpty <;>
    simp [root, header, Xml.isNamed, Xml.areNamed, Xml.areNamed_eq_all, isName_names, anyPlace,
      isNamed_unitOf]

end Names

section Texts

open Xml (isLegal)

/-- The texts of a message that stand in the files, as they are in the message. -/
def messageTexts (style : XliffStyle) (message : Message) : List String :=
  message.id :: (message.desc.toList ++ message.meaning.toList
    ++ (message.translations.flatMap fun (locale, text) => [locale, text])
    ++ if style.withPlaces then message.places.map Place.path else [])

/-- All texts from outside that stand in the file for messages in a language. -/
def fileTexts (style : XliffStyle) (messages : List Message) (locale : String) : List String :=
  style.sourceLanguage :: locale :: (style.date.toList ++ messages.flatMap style.messageTexts)

theorem isLegal_append (first second : String) : isLegal (first ++ second) = (isLegal first && isLegal second) := by
  simp only [isLegal, String.toList_append, List.all_append]

theorem isLegal_repr (n : Int) : isLegal n.repr = true := by
  have digits (n : Nat) : isLegal n.repr = true := by
    rw [isLegal, Nat.repr_eq_ofList_toDigits, String.toList_ofList, List.all_eq_true]
    intro c member
    have bounds := toNat_bounds_of_isDigit (Nat.isDigit_of_mem_toDigits (by decide) (by decide) member)
    simp only [Xml.isCharacter, inRanges, List.any_cons, List.any_nil, Bool.or_eq_true, Bool.and_eq_true,
      decide_eq_true_eq]
    omega
  cases n with
  | ofNat n => exact digits n
  | negSucc n =>
    show isLegal ("-" ++ (n + 1).repr) = true
    rw [isLegal_append, digits]
    decide

theorem all_isLegal_placeElement (place : Place) :
    (placeElement place).texts.all isLegal = isLegal place.path := by
  have nothing : isLegal "" = true := rfl
  unfold placeElement
  split <;> simp [Xml.texts, isLegal_repr, nothing]

theorem all_isLegal_spoken? (remark : Option String) :
    (spoken? remark).toList.all isLegal = remark.toList.all isLegal := by
  cases remark with
  | none => rfl
  | some text =>
    by_cases empty : text = ""
    · subst empty
      rfl
    · simp [spoken?, Option.filter, empty]

theorem isLegal_shownText {message : Message} (id : isLegal message.id = true)
    (desc : message.desc.toList.all isLegal = true) : isLegal (shownText message) = true := by
  unfold shownText
  cases of : message.desc with
  | none => exact id
  | some text =>
    have ofText : isLegal text = true := by simpa [of] using desc
    dsimp only
    split <;> assumption

theorem all_isLegal_unitOf (style : XliffStyle) (message : Message) :
    (style.unitOf message).texts.all isLegal = (style.messageTexts message).all isLegal := by
  have translations : (sortedTranslations message.translations).all (fun entry => isLegal entry.1 && isLegal entry.2)
      = message.translations.all fun entry => isLegal entry.1 && isLegal entry.2 :=
    (List.mergeSort_perm _ _).all_eq
  have places : (if style.withPlaces then message.places.map placeElement else []).all (fun place => place.texts.all isLegal)
      = (if style.withPlaces then message.places.map Place.path else []).all isLegal := by
    split
    · simp only [List.all_map, Function.comp_def, all_isLegal_placeElement]
    · rfl
  have meaning (text : String) : isLegal s!"meaning: {text}" = isLegal text := by
    have front : isLegal "meaning: " = true := by decide
    show isLegal ("meaning: " ++ text) = isLegal text
    rw [isLegal_append, front, Bool.true_and]
  have texts : (style.unitOf message).texts.all isLegal
      = (isLegal message.id && isLegal (shownText message)
        && message.translations.all (fun entry => isLegal entry.1 && isLegal entry.2)
        && (if style.withPlaces then message.places.map Place.path else []).all isLegal
        && message.desc.toList.all isLegal && message.meaning.toList.all isLegal) := by
    have new : isLegal "new" = true := by decide
    rw [← places, ← translations, ← all_isLegal_spoken? message.desc, ← all_isLegal_spoken? message.meaning]
    simp only [unitOf, Xml.texts, Xml.textsOfAll, Xml.textsOfAll_eq_flatMap, List.all_append, List.all_flatMap,
      List.map_cons, List.map_nil, List.append_nil, List.nil_append, List.cons_append, List.all_map,
      Function.comp_def, List.all_cons, List.all_nil, new, meaning, Bool.and_true, Bool.true_and, Bool.and_self,
      Bool.and_self_left, Bool.and_assoc]
  have others : (style.messageTexts message).all isLegal
      = (isLegal message.id && message.desc.toList.all isLegal && message.meaning.toList.all isLegal
        && message.translations.all (fun entry => isLegal entry.1 && isLegal entry.2)
        && (if style.withPlaces then message.places.map Place.path else []).all isLegal) := by
    simp only [messageTexts, List.all_append, List.all_flatMap, List.all_cons, List.all_nil, Bool.and_true,
      Bool.and_assoc]
  have shown := @isLegal_shownText message
  rw [texts, others, Bool.eq_iff_iff]
  simp only [Bool.and_eq_true]
  tauto

theorem all_isLegal_root (style : XliffStyle) (messages : List Message) (locale : String) :
    (style.root messages locale).texts.all isLegal = (style.fileTexts messages locale).all isLegal := by
  have constants : header.texts.all isLegal = true ∧ isLegal "plaintext" = true ∧ isLegal "not.available" = true ∧
      isLegal namespaceName = true ∧ isLegal placeNamespaceName = true ∧ isLegal "1.2" = true := by
    decide
  unfold root
  extract_lets anyPlace namespaces file
  have declarations : (namespaces.map Prod.snd).all isLegal = true := by
    cases anyPlace <;> simp [namespaces, constants]
  simp only [Xml.texts, Xml.textsOfAll, Xml.textsOfAll_eq_flatMap, declarations, constants, file, fileTexts,
    List.all_append, List.all_flatMap, List.all_map, Function.comp_def, all_isLegal_unitOf, List.map_append, List.map_cons,
    List.map_nil, List.all_cons, List.all_nil, List.map_map, List.append_nil, List.nil_append, Bool.and_true,
    Bool.true_and, Bool.and_assoc]

end Texts

end XliffStyle

end FormHarvest
