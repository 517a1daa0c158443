import FormHarvest.Php.Parser
import FormHarvest.Proofs.KeyedInsertion
import FormHarvest.Proofs.TwoPasses
import Mathlib.Data.List.Induction

namespace FormHarvest

namespace Catalogue

theorem eq_of_messages {first second : Catalogue} (locale : first.locale = second.locale)
    (messages : first.messages = second.messages) : first = second := by
  cases first
  cases second
  simp only at locale messages
  subst locale messages
  rfl

@[simp] theorem locale_addAll (catalogue : Catalogue) (messages : List Message) :
    (catalogue.addAll messages).locale = catalogue.locale := by
  induction messages generalizing catalogue with
  | nil => rfl
  | cons first rest ih => exact ih (catalogue.add first)

theorem messages_addAll (catalogue : Catalogue) (messages : List Message) :
    (catalogue.addAll messages).messages
      = messages.foldl (fun all new => insertWith Message.key Message.absorb new all)
          catalogue.messages := by
  induction messages generalizing catalogue with
  | nil => rfl
  | cons first rest ih =>
    rw [List.foldl_cons, ← insertMessage_eq_insertWith]
    exact ih (catalogue.add first)

/-- A message may be added to a catalogue before it is merged into another one or after that. -/
theorem merge_add (catalogue : Catalogue) {other : Catalogue} (new : Message)
    (distinct : ∀ message ∈ other.messages, message.HasDistinctLanguages) :
    catalogue.merge (other.add new) = (catalogue.merge other).add new := by
  refine eq_of_messages (by simp only [merge, locale_addAll, add]) ?_
  have added : (other.add new).messages = insertWith Message.key Message.absorb new other.messages :=
    insertMessage_eq_insertWith new other.messages
  have onTop : ((catalogue.merge other).add new).messages
      = insertWith Message.key Message.absorb new (catalogue.merge other).messages :=
    insertMessage_eq_insertWith new (catalogue.merge other).messages
  rw [onTop, merge, merge, messages_addAll, messages_addAll, added]
  have assoc (first second third : Message) (distinct : second.HasDistinctLanguages) :=
    first.absorb_absorb third distinct
  exact insertWith.foldl_insertWith Message.key_absorb assoc other.distinct distinct new
    catalogue.messages

/-- Messages may be added to a catalogue before it is merged into another one or after that. -/
theorem merge_addAll (catalogue : Catalogue) {other : Catalogue} {messages : List Message}
    (known : ∀ message ∈ other.messages, message.HasDistinctLanguages)
    (distinct : ∀ message ∈ messages, message.HasDistinctLanguages) :
    catalogue.merge (other.addAll messages) = (catalogue.merge other).addAll messages := by
  induction messages using List.reverseRecOn with
  | nil => rfl
  | append_singleton front last ih =>
    have atFront : ∀ message ∈ front, message.HasDistinctLanguages := fun message member =>
      distinct message (List.mem_append_left _ member)
    have collected : ∀ message ∈ (other.addAll front).messages, message.HasDistinctLanguages :=
      forall_mem_addAll (fun old new _ distinct _ => distinct.absorb new) known atFront
    rw [addAll_append, addAll_append, ← ih atFront]
    exact catalogue.merge_add last collected

/-- Adding messages to a catalogue is collecting them in a catalogue of their own and merging it. -/
theorem merge_addAll_empty (catalogue : Catalogue) {messages : List Message}
    (distinct : ∀ message ∈ messages, message.HasDistinctLanguages) :
    catalogue.merge (empty.addAll messages) = catalogue.addAll messages :=
  merge_addAll catalogue (by simp [empty]) distinct

end Catalogue

/-- The translations that directives give an entry have distinct languages. -/
theorem Finding.nodup_languages_foldl (directives : List Directive) {entry : Entry}
    (distinct : (entry.translations.map Prod.fst).Nodup) :
    ((directives.foldl withDirective entry).translations.map Prod.fst).Nodup := by
  induction directives generalizing entry with
  | nil => exact distinct
  | cons directive rest ih =>
    refine ih ?_
    cases directive with
    | altTrans text locale => exact Translations.nodup_keys_put locale text _ distinct
    | _ => exact distinct

namespace Extractor

variable {extractor : Extractor} {path : String}

theorem nodup_languages_of_readItem? {text : TextItem} {reading : TextReading}
    (read : readItem? path text = some reading) : (reading.entry.translations.map Prod.fst).Nodup := by
  unfold readItem? at read
  split at read
  case h_2 => cases read
  rename_i entry found
  cases read
  simp only [Finding.ofItem] at found
  split at found
  · cases found
    exact Finding.nodup_languages_foldl _ List.nodup_nil
  · split at found <;> cases found

theorem hasDistinctLanguages_of_mem_addedMessages {nodes : List Node} {message : Message}
    (member : message ∈ extractor.addedMessages path nodes) : message.HasDistinctLanguages := by
  have declared := (extractor.addedMessages_perm_declaredMessages path nodes).subset member
  obtain ⟨standing, -, member⟩ := List.mem_flatMap.mp declared
  obtain ⟨reading, read, rfl⟩ := List.mem_map.mp member
  unfold readings at read
  split at read
  · obtain ⟨text, -, read⟩ := List.mem_filterMap.mp read
    exact nodup_languages_of_readItem? read
  · cases read

/-- Trees that an extraction can go through: they are not nested too deeply for it and no source unit
stands inside them. -/
structure Visits (extractor : Extractor) (nodes : List Node) : Prop where
  shallow : Node.height nodes ≤ extractor.maxDepth
  noUnit : ∀ node ∈ walk nodes, node.isSourceUnit = false

/-- An extraction that goes on comes to its end and adds the messages of the trees in their order. -/
theorem run_eq_addAll (goesOn : extractor.effectivePolicy = .goOn) {nodes : List Node}
    (visits : extractor.Visits nodes) (catalogue : Catalogue) :
    ∃ extraction, extractor.run path nodes catalogue = (none, extraction) ∧
      extraction.result.complete = true ∧
      extraction.catalogue = catalogue.addAll (extractor.addedMessages path nodes) := by
  let start : Extraction := { catalogue, result := { path } }
  have steps : ∀ station ∈ routeThrough nodes, ∀ state : Extraction, state.visitsLeft = none →
      ∃ next, state.step extractor station = .ok next ∧ next.visitsLeft = none := by
    intro station member state always
    refine Extraction.step_eq_ok goesOn always fun depth node visited => ?_
    subst visited
    obtain ⟨met, bound⟩ := visit_mem_route member
    have shallow := visits.shallow
    exact ⟨by omega, fun inner inside => visits.noUnit inner (mem_walk_trans met inside)⟩
  have always : start.visitsLeft = none := rfl
  obtain ⟨last, run, -⟩ := foldlM_eq_ok_of_steps steps always
  obtain ⟨stored, -, complete⟩ := Extraction.finish_route run
  refine ⟨last.finish, ?_, complete, stored⟩
  simp only [start] at run
  simp only [Extractor.run, run]

/-- The catalogue with the messages of one more file. -/
def extractInto (extractor : Extractor) (catalogue : Catalogue) (unit : SourceUnit) : Catalogue :=
  (extractor.run unit.path unit.nodes catalogue).2.catalogue

end Extractor

/-- A way to merge the catalogues of files: which two catalogues are merged next, down to the
catalogues of the single files and to empty ones. -/
inductive Merging where
  | nothing
  | file (unit : SourceUnit)
  | both (first second : Merging)

namespace Merging

/-- The files of a merging, in their order. -/
def units : Merging → List SourceUnit
  | nothing => []
  | file unit => [unit]
  | both first second => first.units ++ second.units

/-- What a merging gives if every file has a catalogue of its own at first. -/
def catalogue (extractor : Extractor) : Merging → Catalogue
  | nothing => .empty
  | file unit => extractor.extractInto .empty unit
  | both first second => (first.catalogue extractor).merge (second.catalogue extractor)

/-- Each file's catalogue merged into what came before it, starting with an empty one. -/
def inOrder (units : List SourceUnit) : Merging :=
  units.foldl (fun before unit => both before (file unit)) nothing

theorem units_inOrder (units : List SourceUnit) : (inOrder units).units = units := by
  have behind (units : List SourceUnit) (before : Merging) :
      (units.foldl (fun before unit => both before (file unit)) before).units = before.units ++ units := by
    induction units generalizing before with
    | nil => exact (List.append_nil _).symm
    | cons unit rest ih => rw [List.foldl_cons, ih, Merging.units, Merging.units, List.append_assoc]; rfl
  exact behind units nothing

end Merging

namespace Extractor

variable {extractor : Extractor} {path : String}

theorem extractInto_eq_addAll (goesOn : extractor.effectivePolicy = .goOn) {unit : SourceUnit}
    (visits : extractor.Visits unit.nodes) (catalogue : Catalogue) :
    extractor.extractInto catalogue unit
      = catalogue.addAll (extractor.addedMessages unit.path unit.nodes) := by
  obtain ⟨extraction, run, -, added⟩ : ∃ extraction,
      extractor.run unit.path unit.nodes catalogue = (none, extraction) ∧ _ :=
    run_eq_addAll goesOn visits catalogue
  rw [extractInto, run, ← added]

/-- Files extracted one after the other into one catalogue leave the messages of all of them. -/
theorem foldl_extractInto (goesOn : extractor.effectivePolicy = .goOn) {units : List SourceUnit}
    (visits : ∀ unit ∈ units, extractor.Visits unit.nodes) (catalogue : Catalogue) :
    units.foldl extractor.extractInto catalogue
      = catalogue.addAll (units.flatMap fun unit => extractor.addedMessages unit.path unit.nodes) := by
  induction units generalizing catalogue with
  | nil => rfl
  | cons unit rest ih =>
    rw [List.foldl_cons, extractInto_eq_addAll goesOn (visits unit List.mem_cons_self),
      ih fun unit member => visits unit (.tail _ member), List.flatMap_cons, Catalogue.addAll_append]

/-- A merging leaves the messages of all its files in their order, however it is grouped. -/
theorem catalogue_merging_eq_addAll (goesOn : extractor.effectivePolicy = .goOn) (merging : Merging)
    (visits : ∀ unit ∈ merging.units, extractor.Visits unit.nodes) :
    merging.catalogue extractor
      = Catalogue.empty.addAll
          (merging.units.flatMap fun unit => extractor.addedMessages unit.path unit.nodes) := by
  induction merging with
  | nothing => rfl
  | file unit =>
    rw [Merging.catalogue, Merging.units, List.flatMap_cons, List.flatMap_nil, List.append_nil]
    exact extractInto_eq_addAll goesOn (visits unit List.mem_cons_self) .empty
  | both first second atFirst atSecond =>
    have distinct : ∀ message ∈ second.units.flatMap fun unit =>
        extractor.addedMessages unit.path unit.nodes, message.HasDistinctLanguages := by
      intro message member
      obtain ⟨unit, -, member⟩ := List.mem_flatMap.mp member
      exact hasDistinctLanguages_of_mem_addedMessages member
    rw [Merging.catalogue, Merging.units, List.flatMap_append, Catalogue.addAll_append,
      atFirst fun unit member => visits unit (List.mem_append_left _ member),
      atSecond fun unit member => visits unit (List.mem_append_right _ member)]
    exact Catalogue.merge_addAll_empty _ distinct

/-- Extractions that go on come to their ends, and files extracted one after the other into one
catalogue give what their own catalogues give when they are merged in the order of the files, in
whatever grouping. -/
theorem merged_eq_shared (extractor : Extractor) (units : List SourceUnit)
    (goesOn : extractor.effectivePolicy = .goOn) (visits : ∀ unit ∈ units, extractor.Visits unit.nodes) :
    (∀ unit ∈ units, ∀ catalogue, ∃ extraction,
      extractor.run unit.path unit.nodes catalogue = (none, extraction) ∧
        extraction.result.complete = true) ∧
      (units.map (extractor.extractInto .empty)).foldl Catalogue.merge .empty
        = units.foldl extractor.extractInto .empty ∧
      ∀ merging : Merging, merging.units = units →
        merging.catalogue extractor = units.foldl extractor.extractInto .empty := by
  have grouped (merging : Merging) (same : merging.units = units) :
      merging.catalogue extractor = units.foldl extractor.extractInto .empty := by
    subst same
    rw [foldl_extractInto goesOn visits, catalogue_merging_eq_addAll goesOn merging visits]
  refine ⟨fun unit member catalogue => ?_, ?_, grouped⟩
  · obtain ⟨extraction, run, complete, -⟩ := run_eq_addAll goesOn (visits unit member) catalogue
    exact ⟨extraction, run, complete⟩
  · rw [← grouped _ (Merging.units_inOrder units)]
    have behind (units : List SourceUnit) (before : Merging) :
        (units.map (extractor.extractInto .empty)).foldl Catalogue.merge (before.catalogue extractor)
          = (units.foldl (fun before unit => .both before (.file unit)) before).catalogue extractor := by
      induction units generalizing before with
      | nil => rfl
      | cons unit rest ih => exact ih (.both before (.file unit))
    exact behind units .nothing

/-- A file with one field, whose label has a doc comment or none. -/
def labelledField (path : String) (line : Int) (doc : Option String) : SourceUnit where
  path
  nodes := [.array [⟨some (.string "label" false ⟨line, doc⟩), some (.string "Name" false ⟨line, none⟩),
    false, false, ⟨line, none⟩⟩] ⟨line, none⟩]

/-- Three files with the same field, two of them with a description. -/
def sharedField : List SourceUnit := [
  labelledField "Login.php" 3 (some "/** @Desc(\"A nickname\") */"),
  labelledField "Profile.php" 8 none,
  labelledField "Contact.php" 5 (some "/** @Desc(\"A full name\") */")]

/-- An extractor that goes on where a value cannot be read. -/
def goingOn : Extractor := { policy := some .goOn }

theorem sharedField_merged :
    (sharedField.map (goingOn.extractInto .empty)).foldl Catalogue.merge .empty
        = sharedField.foldl goingOn.extractInto .empty ∧
      (sharedField.foldl goingOn.extractInto .empty).messages
        = [{ id := "Name",
             places := [⟨"Login.php", 3⟩, ⟨"Profile.php", 8⟩, ⟨"Contact.php", 5⟩],
             desc := some "A full name" }] := by
  have visits : ∀ unit ∈ sharedField, goingOn.Visits unit.nodes := by
    simp only [sharedField, List.forall_mem_cons, List.not_mem_nil, false_implies, implies_true, and_true]
    refine ⟨⟨?_, ?_⟩, ⟨?_, ?_⟩, ⟨?_, ?_⟩⟩ <;> decide +kernel
  exact ⟨(merged_eq_shared goingOn sharedField rfl visits).2.1, by decide +kernel⟩

end Extractor

end FormHarvest
