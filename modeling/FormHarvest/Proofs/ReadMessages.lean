import FormHarvest.Proofs.ReadJson

namespace FormHarvest

/-- Items that are sorted by distinct keys are in strict order. -/
theorem pairwise_lt_mergeSort {α : Type} (key : α → String) {items : List α} (distinct : (items.map key).Nodup) :
    ((items.mergeSort fun first second => key first ≤ key second).map key).Pairwise (· < ·) := by
  have ordered : (items.mergeSort fun first second => key first ≤ key second).Pairwise
      fun first second => decide (key first ≤ key second) = true :=
    List.pairwise_mergeSort (fun _ _ _ one two => by simp only [decide_eq_true_eq] at *; exact le_trans one two)
      (fun first second => by simpa using le_total (key first) (key second)) items
  have apart : ((items.mergeSort fun first second => key first ≤ key second).map key).Nodup :=
    ((List.mergeSort_perm items _).map key).nodup_iff.mpr distinct
  have both := ordered.and (List.pairwise_map.mp apart)
  exact List.pairwise_map.mpr (both.imp fun ⟨below, differ⟩ => lt_of_le_of_ne (of_decide_eq_true below) differ)

namespace Message

/-- What a value tells about a message: its remarks, its translations in the order of their languages
if there are any, its places if they are wanted, and nothing else. -/
structure IsToldBy (message : Message) (withPlaces : Bool) (value : Json) : Prop where
  desc : value.field? "desc" = some (message.desc.elim .null .string)
  meaning : value.field? "meaning" = some (message.meaning.elim .null .string)
  untranslated : message.translations = [] → value.field? "alternative_translations" = none
  translated : message.translations ≠ [] → ∃ sorted : Translations, sorted.Perm message.translations ∧
    (sorted.map Prod.fst).Pairwise (· < ·) ∧
    value.field? "alternative_translations"
      = some (.object (sorted.map fun (language, text) => (language, .string text)))
  places : value.field? "sources" =
    if withPlaces then
      some (.list (message.places.map fun place =>
        .string (if place.line = 0 then place.path else place.path ++ ":" ++ toString place.line)))
    else none
  names : ∀ name, (value.field? name).isSome → name ∈ ["desc", "meaning", "alternative_translations", "sources"]

variable {message : Message}

/-- The fields that are written about a message. -/
def detailFields (withPlaces : Bool) (message : Message) : List (String × Json) :=
  [("desc", Json.ofOption message.desc), ("meaning", Json.ofOption message.meaning)]
    ++ (if message.translations.isEmpty then []
      else [("alternative_translations",
        .object ((XliffStyle.sortedTranslations message.translations).map fun (locale, text) =>
          (locale, .string text)))])
    ++ if withPlaces then [("sources", Json.ofTexts (message.places.map Place.text))] else []

theorem details_eq (withPlaces : Bool) (message : Message) :
    message.details withPlaces = .object (message.detailFields withPlaces) := rfl

theorem names_detailFields (withPlaces : Bool) (message : Message) :
    ((message.detailFields withPlaces).map Prod.fst).Sublist
      ["desc", "meaning", "alternative_translations", "sources"] := by
  by_cases nothing : message.translations = [] <;> cases withPlaces <;> simp [detailFields, nothing]

theorem details_isToldBy (distinct : message.HasDistinctLanguages) (withPlaces : Bool) :
    message.IsToldBy withPlaces (message.details withPlaces) := by
  have remark (text : Option String) : text.elim .null .string = Json.ofOption text := by cases text <;> rfl
  have place (place : Place) : (if place.line = 0 then place.path else place.path ++ ":" ++ toString place.line)
      = place.text := rfl
  constructor
  case desc => exact congrArg some (remark message.desc).symm
  case meaning => exact congrArg some (remark message.meaning).symm
  case untranslated =>
    intro nothing
    cases withPlaces <;> simp [details, Json.field?, nothing]
  case translated =>
    intro some
    refine ⟨_, List.mergeSort_perm _ _, pairwise_lt_mergeSort Prod.fst distinct, ?_⟩
    simp [details, Json.field?, some, XliffStyle.sortedTranslations]
  case places =>
    simp only [place]
    by_cases nothing : message.translations = [] <;> cases withPlaces <;>
      simp [details, Json.field?, Json.ofTexts, nothing]
  case names =>
    intro name told
    rw [details_eq, Json.field?, Option.isSome_map, List.find?_isSome] at told
    obtain ⟨field, member, same⟩ := told
    exact (names_detailFields withPlaces message).subset (List.mem_map.mpr ⟨field, member, eq_of_beq same⟩)

theorem details_isTextual (distinct : message.HasDistinctLanguages) (withPlaces : Bool) (depth : Nat) :
    (message.details withPlaces).IsTextual (depth + 2) := by
  have remark (text : Option String) : (Json.ofOption text).IsTextual (depth + 1) := by
    cases text with
    | none => exact .null
    | some text => exact .string text
  have translations : (Json.object ((XliffStyle.sortedTranslations message.translations).map fun (locale, text) =>
      (locale, .string text))).IsTextual (depth + 1) := by
    refine .object ?_ (List.forall_mem_map.mpr fun entry _ => .string entry.2)
    rw [List.map_map]
    exact ((List.mergeSort_perm _ _).map Prod.fst).nodup_iff.mpr distinct
  have places : (Json.ofTexts (message.places.map Place.text)).IsTextual (depth + 1) :=
    .list (List.forall_mem_map.mpr fun text _ => .string text)
  refine .object ((names_detailFields withPlaces message).nodup (by decide)) fun field member => ?_
  simp only [List.append_assoc, List.mem_append, List.mem_cons, List.not_mem_nil, or_false] at member
  rcases member with (rfl | rfl) | member | member
  · exact remark _
  · exact remark _
  · split at member
    · cases member
    · rw [List.mem_singleton.mp member]
      exact translations
  · split at member
    · rw [List.mem_singleton.mp member]
      exact places
    · cases member

end Message

theorem Json.field?_of_mem {fields : List (String × Json)} (distinct : (fields.map Prod.fst).Nodup)
    {field : String × Json} (member : field ∈ fields) : (Json.object fields).field? field.1 = some field.2 := by
  cases found : fields.find? fun known => known.1 == field.1 with
  | none => exact absurd (List.find?_eq_none.mp found field member) (by simp)
  | some known =>
    have sameName : known.1 = field.1 := eq_of_beq (List.find?_some found :)
    have same := List.inj_on_of_nodup_map distinct (List.mem_of_find?_eq_some found) member sameName
    rw [Json.field?, found, same]
    rfl

namespace TranslationWriter

/-- The file of a domain in JSON is read back as an object with the identifiers of its messages as names,
in order, and each value tells what the catalogue holds about the message. Three levels of nesting are
enough. A message has one translation at most for each language, as a mapping from languages has. -/
theorem read_writeMessageJson (withPlaces : Bool) {catalogue : Catalogue} {domain : String} {group : List Message}
    (listed : (domain, group) ∈ groups catalogue) (distinct : (group.map Message.id).Nodup)
    (languages : ∀ message ∈ group, message.HasDistinctLanguages) :
    ∃ fields, (∀ depth, Json.read (writeMessageJson withPlaces group).toList (depth + 3) = .ok (.object fields)) ∧
      fields.map Prod.fst = group.map Message.id ∧ (fields.map Prod.fst).Pairwise (· < ·) ∧
      ∀ message ∈ group, ∃ value,
        (Json.object fields).field? message.id = some value ∧ message.IsToldBy withPlaces value := by
  let fields := group.map fun message => (message.id, message.details withPlaces)
  have written : messageFields withPlaces group = fields := (messageFields_eq_map_iff withPlaces group).mpr distinct
  have names : fields.map Prod.fst = group.map Message.id := by
    rw [List.map_map]
    rfl
  have textual (depth : Nat) : (Json.object fields).IsTextual (depth + 3) :=
    .object (names ▸ distinct) (List.forall_mem_map.mpr fun message member =>
      Message.details_isTextual (languages message member) withPlaces _)
  refine ⟨fields, fun depth => ?_, names, ?_, fun message member => ?_⟩
  · rw [writeMessageJson_eq, written, String.toList_append]
    exact Json.read_write (textual depth) (.lines 2)
      (List.forall_mem_singleton.mpr (show Json.isGap '\n' = true from rfl))
  · obtain ⟨-, sorted⟩ := mem_groups.mp listed
    rw [names, sorted]
    refine pairwise_lt_mergeSort Message.id ?_
    rw [sorted] at distinct
    exact ((List.mergeSort_perm _ _).map Message.id).nodup_iff.mp distinct
  · have told : (message.id, message.details withPlaces) ∈ fields := List.mem_map.mpr ⟨message, member, rfl⟩
    exact ⟨_, Json.field?_of_mem (names ▸ distinct) told,
      Message.details_isToldBy (languages message member) withPlaces⟩

/-- A message whose texts look like the signs around them. -/
def quotedMessage : Message where
  id := "\", \x7b\\\n\x01"
  domain := some "shop"
  places := [⟨"a\"b.php", 3⟩, ⟨"c\\d.php", 0⟩]
  desc := some "\t\u2028"
  translations := [("fr", "]\""), ("de", "")]

/-- The messages of a shop, one of them without remarks. -/
def shopMessages : List Message := [quotedMessage, { id := "Name", domain := some "shop" }]

theorem shopMessages_are_read_back :
    ("shop", shopMessages) ∈ groups (Catalogue.empty.addAll shopMessages) ∧
      ∃ fields value, Json.read (writeMessageJson true shopMessages).toList = .ok (.object fields) ∧
        fields.map Prod.fst = [quotedMessage.id, "Name"] ∧
        (Json.object fields).field? quotedMessage.id = some value ∧
        value.field? "desc" = some (.string "\t\u2028") ∧ value.field? "meaning" = some .null ∧
        value.field? "sources" = some (.list [.string "a\"b.php:3", .string "c\\d.php"]) := by
  have stored : (Catalogue.empty.addAll shopMessages).messages = shopMessages := by decide
  have ordered : shopMessages.Pairwise fun first second => decide (first.id ≤ second.id) = true := by decide
  have listed : ("shop", shopMessages) ∈ groups (Catalogue.empty.addAll shopMessages) := by
    have inShop : shopMessages.filter (·.outputDomain == "shop") = shopMessages := by decide
    rw [mem_groups, stored, inShop, List.mergeSort_of_pairwise ordered]
    exact ⟨by decide, rfl⟩
  have languages : ∀ message ∈ shopMessages, (message.translations.map Prod.fst).Nodup := by decide
  obtain ⟨fields, read, names, -, told⟩ := read_writeMessageJson true listed (by decide) languages
  obtain ⟨value, found, told⟩ := told quotedMessage List.mem_cons_self
  exact ⟨listed, fields, value, read 987, names, found, told.desc, told.meaning, told.places⟩

end TranslationWriter

end FormHarvest
