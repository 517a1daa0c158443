import FormHarvest.Output.Writer
import FormHarvest.Proofs.KeyedInsertion
import Mathlib

namespace FormHarvest

theorem nodup_eraseDups {α : Type} [DecidableEq α] (items : List α) : items.eraseDups.Nodup := by
  induction length : items.length using Nat.strongRecOn generalizing items with
  | _ n ih =>
    cases items with
    | nil => exact List.nodup_nil
    | cons first rest =>
      rw [List.eraseDups_cons, List.nodup_cons, List.mem_eraseDups]
      refine ⟨by simp, ih _ ?_ _ rfl⟩
      have fewer := List.length_filter_le (fun other => !other == first) rest
      rw [← length, List.length_cons]
      omega

namespace Catalogue

/-- The keys of a catalogue are those of all messages that were added to it. -/
theorem mem_keys_addAll {catalogue : Catalogue} {history : List Message}
    {key : String × Option String} :
    key ∈ (catalogue.addAll history).messages.map Message.key ↔
      key ∈ catalogue.messages.map Message.key ∨ key ∈ history.map Message.key := by
  induction history generalizing catalogue with
  | nil => simp
  | cons new rest ih =>
    have added : key ∈ (catalogue.add new).messages.map Message.key ↔
        key = new.key ∨ key ∈ catalogue.messages.map Message.key :=
      mem_keys_insertMessage new key catalogue.messages
    have onTop : catalogue.addAll (new :: rest) = (catalogue.add new).addAll rest := rfl
    rw [onTop, ih, added, List.map_cons, List.mem_cons]
    tauto

theorem nodup_messages (catalogue : Catalogue) : catalogue.messages.Nodup :=
  catalogue.distinct.of_map _

end Catalogue

namespace TranslationWriter

theorem mem_groups {catalogue : Catalogue} {domain : String} {group : List Message} :
    (domain, group) ∈ groups catalogue ↔
      domain ∈ catalogue.messages.map Message.outputDomain ∧
        group = (catalogue.messages.filter (·.outputDomain == domain)).mergeSort (·.id ≤ ·.id) := by
  simp only [groups, List.mem_map, List.mem_mergeSort, List.mem_eraseDups, Prod.mk.injEq]
  constructor
  · rintro ⟨_, there, rfl, rfl⟩
    exact ⟨there, rfl⟩
  · rintro ⟨there, rfl⟩
    exact ⟨domain, there, rfl, rfl⟩

theorem nodup_names_groups (catalogue : Catalogue) : ((groups catalogue).map Prod.fst).Nodup := by
  have names : (groups catalogue).map Prod.fst
      = ((catalogue.messages.map Message.outputDomain).eraseDups).mergeSort (· ≤ ·) := by
    simp only [groups, List.map_map, Function.comp_def, List.map_id']
  rw [names, (List.mergeSort_perm _ _).nodup_iff]
  exact nodup_eraseDups _

theorem mem_group {catalogue : Catalogue} {domain : String} {group : List Message}
    (listed : (domain, group) ∈ groups catalogue) {message : Message} :
    message ∈ group ↔ message ∈ catalogue.messages ∧ message.outputDomain = domain := by
  obtain ⟨-, rfl⟩ := mem_groups.mp listed
  rw [List.mem_mergeSort, List.mem_filter, beq_iff_eq]

theorem nodup_group {catalogue : Catalogue} {domain : String} {group : List Message}
    (listed : (domain, group) ∈ groups catalogue) : group.Nodup := by
  obtain ⟨-, rfl⟩ := mem_groups.mp listed
  rw [(List.mergeSort_perm _ _).nodup_iff]
  exact catalogue.nodup_messages.filter _

/-- The groups together hold the messages of the catalogue, each of them once. -/
theorem flatMap_groups_perm (catalogue : Catalogue) :
    ((groups catalogue).flatMap Prod.snd).Perm catalogue.messages := by
  have apart : (groups catalogue).Pairwise fun first second => first.1 ≠ second.1 :=
    List.pairwise_map.mp (nodup_names_groups catalogue)
  have nodup : ((groups catalogue).flatMap Prod.snd).Nodup := by
    rw [List.nodup_flatMap]
    refine ⟨fun _ listed => nodup_group listed, apart.imp_of_mem ?_⟩
    intro first second atFirst atSecond differ message inFirst inSecond
    exact differ (((mem_group atFirst).mp inFirst).2.symm.trans ((mem_group atSecond).mp inSecond).2)
  rw [List.perm_ext_iff_of_nodup nodup catalogue.nodup_messages]
  intro message
  rw [List.mem_flatMap]
  constructor
  · rintro ⟨_, listed, member⟩
    exact ((mem_group listed).mp member).1
  · intro member
    have listed := mem_groups.mpr ⟨List.mem_map.mpr ⟨message, member, rfl⟩, rfl⟩
    exact ⟨_, listed, (mem_group listed).mpr ⟨member, rfl⟩⟩

end TranslationWriter

namespace Json

theorem setField_eq_insertWith (name : String) (value : Json) (fields : List (String × Json)) :
    setField name value fields
      = insertWith Prod.fst (fun old new => (old.1, new.2)) (name, value) fields := by
  induction fields with
  | nil => rfl
  | cons first rest ih =>
    rw [setField, insertWith, ih]
    by_cases same : first.1 = name
    · simp only [same, beq_self_eq_true, if_true]
    · simp only [same, beq_eq_false_iff_ne.mpr same, Bool.false_eq_true, if_false]

end Json

/-- The fields of the object that is written for messages. -/
def messageFields (withPlaces : Bool) (messages : List Message) : List (String × Json) :=
  messages.foldl (fun fields message => Json.setField message.id (message.details withPlaces) fields) []

theorem writeMessageJson_eq (withPlaces : Bool) (messages : List Message) :
    writeMessageJson withPlaces messages
      = (Json.object (messageFields withPlaces messages)).write (.lines 2) ++ "\n" := rfl

/-- Every message has a field of its own exactly if no two of them have the same identifier. -/
theorem messageFields_eq_map_iff (withPlaces : Bool) (messages : List Message) :
    messageFields withPlaces messages
        = messages.map (fun message => (message.id, message.details withPlaces)) ↔
      (messages.map Message.id).Nodup := by
  have inserted : messageFields withPlaces messages
      = (messages.map fun message => (message.id, message.details withPlaces)).foldl
          (fun all new => insertWith Prod.fst (fun old new => (old.1, new.2)) new all) [] := by
    simp only [messageFields, Json.setField_eq_insertWith, List.foldl_map]
  have names : (messages.map fun message => (message.id, message.details withPlaces)).map Prod.fst
      = messages.map Message.id := by
    rw [List.map_map]
    rfl
  rw [inserted, ← names]
  constructor
  · intro same
    have sameKey (old new : String × Json) : Prod.fst (old.1, new.2) = Prod.fst old := rfl
    have none_ : (([] : List (String × Json)).map Prod.fst).Nodup := List.nodup_nil
    rw [← same]
    exact insertWith.nodup_keys_foldl sameKey none_
  · intro distinct
    exact insertWith.foldl_of_nodup distinct

namespace Xml

mutual

/-- The identifiers of the translation units in an element. -/
def unitIds : Xml → List String
  | leaf _ _ _ => []
  | branch name attributes children =>
    (if name = "trans-unit" then (attributes.filter (·.1 = "id")).map Prod.snd else [])
      ++ unitIdsOfAll children

/-- The identifiers of the translation units in elements. -/
def unitIdsOfAll : List Xml → List String
  | [] => []
  | first :: rest => unitIds first ++ unitIdsOfAll rest

end

theorem unitIdsOfAll_eq_flatMap (elements : List Xml) :
    unitIdsOfAll elements = elements.flatMap unitIds := by
  induction elements with
  | nil => rfl
  | cons first rest ih => rw [unitIdsOfAll, ih, List.flatMap_cons]

end Xml

namespace XliffStyle

variable (style : XliffStyle)

theorem unitIds_unitOf (message : Message) : (style.unitOf message).unitIds = [message.id] := by
  -- the parts of a unit are texts, notes and places, none of which is a unit
  have texts (entry : String × String) :
      (Xml.branch "alt-trans" [("xml:lang", entry.1)] [.leaf "target" [] entry.2]).unitIds = [] := rfl
  have places : (if style.withPlaces then message.places.map placeElement else []).flatMap
      Xml.unitIds = [] := by
    rw [List.flatMap_eq_nil_iff]
    intro child member
    split at member
    · obtain ⟨place, -, rfl⟩ := List.mem_map.mp member
      rfl
    · cases member
  rw [unitOf, Xml.unitIds, Xml.unitIdsOfAll_eq_flatMap]
  simp only [List.flatMap_append, places, List.flatMap_map, texts]
  simp [Xml.unitIds]

/-- The root of the file for messages in a language. -/
def root (messages : List Message) (locale : String) : Xml :=
  let anyPlace := style.withPlaces && messages.any fun message => !message.places.isEmpty
  let namespaces := ("xmlns", namespaceName) ::
    if anyPlace then [("xmlns:jms", placeNamespaceName)] else []
  let file := [("source-language", style.sourceLanguage), ("target-language", locale),
    ("datatype", "plaintext"), ("original", "not.available")]
      ++ style.date.toList.map fun date => ("date", date)
  .branch "xliff" (namespaces ++ [("version", "1.2")])
    [.branch "file" file [header, .branch "body" [] (messages.map style.unitOf)]]

theorem write_eq (messages : List Message) (locale : String) :
    style.write messages locale = Xml.document (style.root messages locale) := rfl

theorem unitIds_root (messages : List Message) (locale : String) :
    (style.root messages locale).unitIds = messages.map Message.id := by
  have units : Xml.unitIdsOfAll (messages.map style.unitOf) = messages.map Message.id := by
    rw [Xml.unitIdsOfAll_eq_flatMap, List.flatMap_map]
    simp only [unitIds_unitOf]
    exact List.flatMap_pure_eq_map Message.id messages
  simp [root, Xml.unitIds, Xml.unitIdsOfAll, header, units]

end XliffStyle

/-- No two messages with one identifier have different domains that are written to the same file. -/
def WrittenApart (history : List Message) : Prop :=
  ∀ first ∈ history, ∀ second ∈ history, first.id = second.id →
    first.outputDomain = second.outputDomain → first.domain = second.domain

namespace TranslationWriter

theorem outputDomain_eq_of_domain_eq {first second : Message} (same : first.domain = second.domain) :
    first.outputDomain = second.outputDomain := by
  rw [Message.outputDomain, Message.outputDomain, same]

/-- The identifiers in the groups are distinct exactly if the messages that were added are written
apart, even though they may have been absorbed by others. -/
theorem forall_nodup_ids_iff {locale : Option String} {history : List Message} :
    (∀ domain group, (domain, group) ∈ groups (({ locale } : Catalogue).addAll history) →
        (group.map Message.id).Nodup) ↔ WrittenApart history := by
  have kept (message : Message) (member : message ∈ history) :
      ∃ stored ∈ (({ locale } : Catalogue).addAll history).messages, stored.key = message.key :=
    List.mem_map.mp (Catalogue.mem_keys_addAll.mpr (.inr (List.mem_map.mpr ⟨message, member, rfl⟩)))
  have added (stored : Message) (member : stored ∈ (({ locale } : Catalogue).addAll history).messages) :
      ∃ message ∈ history, message.key = stored.key := by
    have origin := Catalogue.mem_keys_addAll.mp (List.mem_map.mpr ⟨stored, member, rfl⟩)
    exact List.mem_map.mp (origin.resolve_left List.not_mem_nil)
  constructor
  · intro distinct first inFirst second inSecond sameId sameFile
    obtain ⟨storedFirst, atFirst, firstKey⟩ := kept first inFirst
    obtain ⟨storedSecond, atSecond, secondKey⟩ := kept second inSecond
    obtain ⟨firstId, firstDomain⟩ := Prod.mk.inj firstKey
    obtain ⟨secondId, secondDomain⟩ := Prod.mk.inj secondKey
    have listed := mem_groups.mpr ⟨List.mem_map.mpr ⟨storedFirst, atFirst, rfl⟩, rfl⟩
    have sameGroup : storedSecond.outputDomain = storedFirst.outputDomain := by
      rw [outputDomain_eq_of_domain_eq firstDomain, outputDomain_eq_of_domain_eq secondDomain, sameFile]
    have same : storedFirst = storedSecond :=
      List.inj_on_of_nodup_map (distinct _ _ listed) ((mem_group listed).mpr ⟨atFirst, rfl⟩)
        ((mem_group listed).mpr ⟨atSecond, sameGroup⟩) (firstId.trans (sameId.trans secondId.symm))
    rw [← firstDomain, ← secondDomain, same]
  · intro apart domain group listed
    rw [List.nodup_map_iff_inj_on (nodup_group listed)]
    intro storedFirst inFirst storedSecond inSecond sameId
    obtain ⟨atFirst, firstFile⟩ := (mem_group listed).mp inFirst
    obtain ⟨atSecond, secondFile⟩ := (mem_group listed).mp inSecond
    obtain ⟨first, fromFirst, firstKey⟩ := added storedFirst atFirst
    obtain ⟨second, fromSecond, secondKey⟩ := added storedSecond atSecond
    obtain ⟨firstId, firstDomain⟩ := Prod.mk.inj firstKey
    obtain ⟨secondId, secondDomain⟩ := Prod.mk.inj secondKey
    have sameFile : first.outputDomain = second.outputDomain := by
      rw [outputDomain_eq_of_domain_eq firstDomain, outputDomain_eq_of_domain_eq secondDomain, firstFile,
        secondFile]
    have sameDomain := apart first fromFirst second fromSecond
      (firstId.trans (sameId.trans secondId.symm)) sameFile
    have sameKey : storedFirst.key = storedSecond.key :=
      Prod.ext sameId (firstDomain.symm.trans (sameDomain.trans secondDomain))
    exact List.inj_on_of_nodup_map (Catalogue.distinct _) atFirst atSecond sameKey

/-- Every message of a catalogue is in exactly one group, that of the domain under which it is written.
A group has no identifier twice, the object that is written for it in JSON has a field for each message
and its units in the document that is written in XLIFF have distinct identifiers exactly if the messages
that were added are written apart. -/
theorem groups_separate_messages_iff (locale : Option String) (history : List Message)
    (withPlaces : Bool) (style : XliffStyle) (language : String) :
    let catalogue := ({ locale } : Catalogue).addAll history
    ((groups catalogue).map Prod.fst).Nodup ∧
      ((groups catalogue).flatMap Prod.snd).Perm catalogue.messages ∧
      (∀ domain group, (domain, group) ∈ groups catalogue → ∀ message,
        message ∈ group ↔ message ∈ catalogue.messages ∧ message.outputDomain = domain) ∧
      (∀ group, writeMessageJson withPlaces group
        = (Json.object (messageFields withPlaces group)).write (.lines 2) ++ "\n") ∧
      (∀ group, style.write group language = Xml.document (style.root group language)) ∧
      List.TFAE [
        WrittenApart history,
        ∀ domain group, (domain, group) ∈ groups catalogue → (group.map Message.id).Nodup,
        ∀ domain group, (domain, group) ∈ groups catalogue →
          messageFields withPlaces group
            = group.map fun message => (message.id, message.details withPlaces),
        ∀ domain group, (domain, group) ∈ groups catalogue →
          (style.root group language).unitIds.Nodup] := by
  intro catalogue
  refine ⟨nodup_names_groups catalogue, flatMap_groups_perm catalogue,
    fun domain group listed message => mem_group listed, writeMessageJson_eq withPlaces,
    fun group => style.write_eq group language, ?_⟩
  simp only [messageFields_eq_map_iff, XliffStyle.unitIds_root]
  tfae_have 1 ↔ 2 := forall_nodup_ids_iff.symm
  tfae_have 2 ↔ 3 := Iff.rfl
  tfae_have 2 ↔ 4 := Iff.rfl
  tfae_finish

/-- A text that was found without a domain and once more in the domain of texts that have none. -/
def namedTwice : List Message := [
  { id := "Name", places := [⟨"Login.php", 3⟩] },
  { id := "Name", domain := some "messages", places := [⟨"Profile.php", 8⟩] }]

theorem namedTwice_share_an_identifier :
    groups (Catalogue.empty.addAll namedTwice) = [("messages", namedTwice)] ∧
      messageFields true namedTwice
        = [("Name", .object [("desc", .null), ("meaning", .null),
            ("sources", .list [.string "Profile.php:8"])])] ∧
      (({} : XliffStyle).root namedTwice "de").unitIds = ["Name", "Name"] := by
  refine ⟨by cbv, by cbv, by cbv⟩

end TranslationWriter

end FormHarvest
