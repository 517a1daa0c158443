import FormHarvest.Proofs.ExtractionsAlone

namespace FormHarvest

/-- Items that are there already and say nothing new about themselves may be inserted again. -/
theorem insertWith.foldl_of_mem {α κ : Type} [DecidableEq κ] {key : α → κ} {combine : α → α → α}
    {items others : List α} (distinct : (items.map key).Nodup)
    (settled : ∀ other ∈ others, combine other other = other) (there : ∀ other ∈ others, other ∈ items) :
    others.foldl (fun all other => insertWith key combine other all) items = items := by
  have again {known : α} (same : combine known known = known) {items : List α}
      (distinct : (items.map key).Nodup) (member : known ∈ items) :
      insertWith key combine known items = items := by
    induction items with
    | nil => cases member
    | cons first rest ih =>
      rw [List.map_cons, List.nodup_cons] at distinct
      rcases List.mem_cons.mp member with rfl | behind
      · rw [insertWith, if_pos rfl, same]
      · have differ : key first ≠ key known := fun equal =>
          distinct.1 (equal ▸ List.mem_map_of_mem behind)
        rw [insertWith, if_neg differ, ih distinct.2 behind]
  induction others with
  | nil => rfl
  | cons other rest ih =>
    rw [List.foldl_cons, again (settled other List.mem_cons_self) distinct (there other List.mem_cons_self)]
    exact ih (fun later member => settled later (.tail _ member)) fun later member =>
      there later (.tail _ member)

theorem Translations.putAll_self {translations : Translations}
    (distinct : (translations.map Prod.fst).Nodup) : translations.putAll translations = translations := by
  rw [putAll_eq_foldl]
  exact insertWith.foldl_of_mem distinct (fun _ _ => rfl) fun _ member => member

theorem laterRemark_self (remark : Option String) : laterRemark remark remark = remark := by
  cases remark with
  | none => rfl
  | some text =>
    rw [laterRemark]
    split <;> rfl

namespace Message

theorem foldl_addPlace_of_subset {places known : List Place} (there : places ⊆ known) :
    places.foldl addPlace known = known := by
  induction places with
  | nil => rfl
  | cons first rest ih =>
    rw [List.foldl_cons, addPlace, if_pos (there List.mem_cons_self)]
    exact ih fun place member => there (.tail _ member)

/-- A message that takes itself in stays what it is. -/
theorem absorb_self {message : Message} (distinct : message.HasDistinctLanguages) :
    message.absorb message = message := by
  simp only [absorb, foldl_addPlace_of_subset (List.Subset.refl message.places), laterRemark_self,
    Translations.putAll_self distinct]

end Message

namespace Catalogue

/-- A catalogue into which it is merged itself stays what it is. -/
theorem merge_self {catalogue : Catalogue}
    (distinct : ∀ message ∈ catalogue.messages, message.HasDistinctLanguages) :
    catalogue.merge catalogue = catalogue := by
  refine eq_of_messages (locale_addAll catalogue catalogue.messages) ?_
  rw [merge, messages_addAll]
  exact insertWith.foldl_of_mem catalogue.distinct
    (fun message member => Message.absorb_self (distinct message member)) fun _ member => member

/-- Messages that were added one after the other may be added again in the same order: competing
remarks and translations come out the same, and nothing moves. -/
theorem addAll_addAll_self (catalogue : Catalogue) {messages : List Message}
    (distinct : ∀ message ∈ messages, message.HasDistinctLanguages) :
    (catalogue.addAll messages).addAll messages = catalogue.addAll messages := by
  have collected : ∀ message ∈ (empty.addAll messages).messages, message.HasDistinctLanguages :=
    forall_mem_addAll (fun old new _ distinct _ => distinct.absorb new) (by simp [empty]) distinct
  calc (catalogue.addAll messages).addAll messages
      = (catalogue.merge (empty.addAll messages)).merge (empty.addAll messages) := by
        rw [merge_addAll_empty _ distinct, merge_addAll_empty _ distinct]
    _ = catalogue.merge ((empty.addAll messages).merge (empty.addAll messages)) :=
        (merge_addAll catalogue collected collected).symm
    _ = catalogue.addAll messages := by
        rw [merge_self collected, merge_addAll_empty _ distinct]

end Catalogue

namespace Extractor

variable {extractor : Extractor} {unit : SourceUnit}

/-- **Extraction is idempotent.** A second extraction of a file into the catalogue that the first one has
left finds the same once more, in number and in what cannot be read, and changes nothing in the
catalogue, whatever stood in it at first. -/
theorem run_again_changes_nothing (goesOn : extractor.effectivePolicy = .goOn)
    (visits : extractor.Visits unit.nodes) (catalogue : Catalogue) :
    ∃ first second, extractor.run unit.path unit.nodes catalogue = (none, first) ∧
      first.result.complete = true ∧
      first.catalogue = catalogue.addAll (extractor.addedMessages unit.path unit.nodes) ∧
      extractor.run unit.path unit.nodes first.catalogue = (none, second) ∧
      second.catalogue = first.catalogue ∧ second.result = first.result := by
  obtain ⟨first, firstRun, firstResult, -⟩ := run_eq_merge goesOn visits catalogue
  obtain ⟨second, secondRun, secondResult, -⟩ := run_eq_merge goesOn visits first.catalogue
  have complete := (completes goesOn visits).complete
  have firstAdds : first.catalogue = catalogue.addAll (extractor.addedMessages unit.path unit.nodes) :=
    catalogue_of_complete firstRun (firstResult ▸ complete)
  have secondAdds : second.catalogue
      = first.catalogue.addAll (extractor.addedMessages unit.path unit.nodes) :=
    catalogue_of_complete secondRun (secondResult ▸ complete)
  refine ⟨first, second, firstRun, firstResult ▸ complete, firstAdds, secondRun, ?_,
    secondResult.trans firstResult.symm⟩
  rw [secondAdds, firstAdds]
  exact Catalogue.addAll_addAll_self catalogue fun message member =>
    hasDistinctLanguages_of_mem_addedMessages member

/-- A class in which the same text is met twice with competing remarks: the array with a domain of its own
stores it at once, the one before it lets it wait for the end of the class. -/
def contestedName : SourceUnit where
  path := "Forms.php"
  nodes :=
    let item (key : String) (doc : Option String) (value : String) (line : Int) : ArrayItem Node :=
      ⟨some (.string key false ⟨line, doc⟩), some (.string value false ⟨line, none⟩), false, false, ⟨line, none⟩⟩
    [.classBody "PersonType" [
      .array [item "label" (some "/** @Desc(\"A nickname\") @AltTrans(\"Nom\", \"fr\") */") "Name" 3] ⟨3, none⟩,
      .array [item "label" (some "/** @Desc(\"A full name\") @AltTrans(\"Prénom\", \"fr\") */") "Name" 4,
        item "translation_domain" none "person" 4] ⟨4, none⟩,
      .methodCall (.variable "$resolver" ⟨6, none⟩) "setDefaults"
        [.array [item "translation_domain" none "person" 6] ⟨6, none⟩] ⟨6, none⟩] ⟨2, none⟩]

/-- A catalogue that knows the text already. -/
def knownName : Catalogue :=
  Catalogue.empty.add
    { id := "Name", domain := some "person", places := [⟨"Login.php", 8⟩, ⟨"Forms.php", 4⟩],
      meaning := some "Of a person", translations := [("de", "Name")] }

/-- What waits for the end of the class is said last, also in the second extraction. -/
theorem contestedName_again :
    ∃ first second,
      goingOn.run contestedName.path contestedName.nodes knownName = (none, first) ∧
      goingOn.run contestedName.path contestedName.nodes first.catalogue = (none, second) ∧
      second.catalogue = first.catalogue ∧ second.result = first.result ∧ second.result.deferred = 1 ∧
      second.catalogue.messages
        = [{ id := "Name", domain := some "person",
             places := [⟨"Login.php", 8⟩, ⟨"Forms.php", 4⟩, ⟨"Forms.php", 3⟩], desc := some "A nickname",
             meaning := some "Of a person", translations := [("de", "Name"), ("fr", "Nom")] }] := by
  have visits : goingOn.Visits contestedName.nodes := ⟨by decide +kernel, by decide +kernel⟩
  obtain ⟨first, second, firstRun, -, -, secondRun, same, sameResult⟩ :=
    run_again_changes_nothing (show goingOn.effectivePolicy = .goOn from rfl) visits knownName
  refine ⟨first, second, firstRun, secondRun, same, sameResult, ?_, ?_⟩
  · rw [sameResult, ← congrArg (·.2.result.deferred) firstRun]
    decide +kernel
  · rw [same, ← congrArg (·.2.catalogue.messages) firstRun]
    decide +kernel

end Extractor

end FormHarvest
