import FormHarvest.Proofs.StoppedRuns

namespace FormHarvest

namespace Extraction

/-- Two extractions that may only differ in their catalogues and in what they have logged. -/
structure Agrees (one other : Extraction) : Prop where
  scopes : one.scopes = other.scopes
  result : one.result = other.result
  visitsLeft : one.visitsLeft = other.visitsLeft

variable {extractor : Extractor} {one other next further : Extraction}

theorem Agrees.store (agree : one.Agrees other) (messages : List Message) :
    (one.store messages).Agrees (other.store messages) where
  scopes := agree.scopes
  result := by simp only [Extraction.store, agree.result]
  visitsLeft := agree.visitsLeft

theorem Agrees.take (agree : one.Agrees other) (entry : Entry) (domain : Option String) :
    (one.take entry domain).Agrees (other.take entry domain) := by
  cases domain with
  | none => exact ⟨by simp only [Extraction.take, agree.scopes], by simp only [Extraction.take, agree.result],
      agree.visitsLeft⟩
  | some domain => exact agree.store _

theorem Agrees.logged (agree : one.Agrees other) (records others : List LogRecord) :
    (one.logged records).Agrees (other.logged others) :=
  ⟨agree.scopes, agree.result, agree.visitsLeft⟩

theorem Agrees.note (agree : one.Agrees other) (diagnostic : Diagnostic) :
    (one.note diagnostic).Agrees (other.note diagnostic) :=
  ⟨agree.scopes, by simp only [Extraction.note, agree.result], agree.visitsLeft⟩

theorem Agrees.finish (agree : one.Agrees other) : one.finish.Agrees other.finish := by
  rw [Extraction.finish, agree.scopes]
  exact agree.store _

theorem agrees_readText {text : TextItem} (agree : one.Agrees other)
    (first : readText extractor one text = .ok next) (second : readText extractor other text = .ok further) :
    next.Agrees further := by
  unfold readText at first second
  split at first
  · cases first
  rename_i noUnit
  rw [if_neg noUnit, ← agree.result] at second
  rcases reading : Finding.ofItem one.result.path text.item with ⟨finding, records⟩
  simp only [reading] at first second
  have read := agree.logged records records
  cases finding with
  | nothing =>
    cases first
    cases second
    exact read
  | entry entry =>
    cases first
    cases second
    exact read.take entry text.domain
  | diagnostic diagnostic =>
    simp only at first second
    split at first
    · cases first
    · rename_i goesOn
      simp only [goesOn] at second
      cases first
      cases second
      exact (read.note diagnostic).logged _ _

theorem agrees_foldlM {α : Type} (act : Extraction → α → Except (Interruption × Extraction) Extraction)
    (acts : ∀ {a one other next further}, one.Agrees other → act one a = .ok next →
      act other a = .ok further → next.Agrees further)
    {parts : List α} (agree : one.Agrees other) (first : parts.foldlM act one = .ok next)
    (second : parts.foldlM act other = .ok further) : next.Agrees further := by
  induction parts generalizing one other with
  | nil =>
    cases first
    cases second
    exact agree
  | cons part rest ih =>
    obtain ⟨_, here, behind⟩ := foldlM_cons_eq_ok_iff.mp first
    obtain ⟨_, there, after⟩ := foldlM_cons_eq_ok_iff.mp second
    exact ih (acts agree here there) behind after

theorem agrees_visit {node : Node} (agree : one.Agrees other) (first : visit extractor one node = .ok next)
    (second : visit extractor other node = .ok further) : next.Agrees further := by
  cases node with
  | classBody name body mark =>
    cases first
    cases second
    exact ⟨congrArg ScopeStack.enter agree.scopes, agree.result, agree.visitsLeft⟩
  | array items mark => exact agrees_foldlM (readText extractor) agrees_readText agree first second
  | sourceUnit path nodes => cases first
  | methodCall receiver name args mark =>
    simp only [visit] at first second
    split at first <;> rename_i default <;> simp only [default] at second <;> cases first <;> cases second
    · exact ⟨by simp only [agree.scopes], agree.result, agree.visitsLeft⟩
    · exact agree
  | _ =>
    cases first
    cases second
    exact agree

theorem Agrees.takeVisit? (agree : one.Agrees other) (first : one.takeVisit? = some next)
    (second : other.takeVisit? = some further) : next.Agrees further := by
  unfold Extraction.takeVisit? at first second
  rw [← agree.visitsLeft] at second
  split at first <;> rename_i left <;> simp only [left] at second <;> cases first <;> cases second
  · exact agree
  · exact ⟨agree.scopes, agree.result, rfl⟩

theorem exists_takeVisit?_of_step {depth : Nat} {node : Node}
    (run : step extractor one (.visit depth node) = .ok next) :
    ∃ middle, one.takeVisit? = some middle ∧ visit extractor middle node = .ok next := by
  simp only [step] at run
  split at run
  · cases run
  split at run
  · cases run
  · rename_i middle more
    exact ⟨middle, more, run⟩

theorem agrees_step {station : Waypoint} (agree : one.Agrees other) (first : step extractor one station = .ok next)
    (second : step extractor other station = .ok further) : next.Agrees further := by
  cases station with
  | visit depth node =>
    obtain ⟨_, here, first⟩ := exists_takeVisit?_of_step first
    obtain ⟨_, there, second⟩ := exists_takeVisit?_of_step second
    exact agrees_visit (agree.takeVisit? here there) first second
  | leave =>
    simp only [step] at first second
    rw [← agree.scopes] at second
    split at first <;> rename_i left <;> simp only [left] at second <;> cases first <;> cases second
    · have outside (scopes : ScopeStack) : Agrees { one with scopes } { other with scopes } :=
        ⟨rfl, agree.result, agree.visitsLeft⟩
      exact (outside _).store _
    · exact agree

end Extraction

namespace Catalogue

theorem length_insertMessage_le (new : Message) (messages : List Message) :
    (insertMessage new messages).length ≤ messages.length + 1 := by
  induction messages with
  | nil => exact Nat.le_refl 1
  | cons first rest ih =>
    rw [insertMessage]
    split
    · exact Nat.le_succ _
    · exact Nat.succ_le_succ ih

/-- Messages of keys that are known do not add to the size of a catalogue. -/
theorem size_addAll_le (catalogue : Catalogue) (messages : List Message) :
    (catalogue.addAll messages).size ≤ catalogue.size + messages.length := by
  induction messages generalizing catalogue with
  | nil => exact Nat.le_refl _
  | cons first rest ih =>
    have one : (catalogue.add first).size ≤ catalogue.size + 1 := length_insertMessage_le first _
    have others := ih (catalogue.add first)
    rw [List.length_cons]
    change ((catalogue.add first).addAll rest).size ≤ _
    omega

theorem size_merge_le (catalogue other : Catalogue) : (catalogue.merge other).size ≤ catalogue.size + other.size :=
  catalogue.size_addAll_le other.messages

end Catalogue

namespace Extractor

variable {extractor : Extractor} {path : String}

theorem path_of_unreadable? {text : TextItem} {diagnostic : Diagnostic}
    (noted : unreadable? path text = some diagnostic) : diagnostic.path = path := by
  simp only [unreadable?, Finding.ofItem] at noted
  split at noted
  · rename_i found
    cases noted
    split at found
    · cases found
    · split at found <;> cases found
      rfl
  · cases noted

theorem path_of_mem_diagnosticsAt {node : Node} {diagnostic : Diagnostic}
    (member : diagnostic ∈ extractor.diagnosticsAt path node) : diagnostic.path = path := by
  unfold diagnosticsAt at member
  split at member
  · obtain ⟨text, -, noted⟩ := List.mem_filterMap.mp member
    exact path_of_unreadable? noted
  · cases member

/-- The extraction of a file into a catalogue of its own. -/
def alone (extractor : Extractor) (unit : SourceUnit) : Extraction :=
  (extractor.run unit.path unit.nodes .empty).2

/-- The extraction of a file has come to its end: what it notes is about this file, and its catalogue holds no
more messages than it has counted. -/
structure Completes (extractor : Extractor) (unit : SourceUnit) : Prop where
  run : extractor.run unit.path unit.nodes .empty = (none, extractor.alone unit)
  path : (extractor.alone unit).result.path = unit.path
  complete : (extractor.alone unit).result.complete = true
  about : ∀ diagnostic ∈ (extractor.alone unit).result.diagnostics, diagnostic.path = unit.path
  size : (extractor.alone unit).catalogue.size ≤ (extractor.alone unit).result.messages

variable {unit : SourceUnit}

theorem completes (goesOn : extractor.effectivePolicy = .goOn) (visits : extractor.Visits unit.nodes) :
    extractor.Completes unit := by
  obtain ⟨extraction, run, complete, -⟩ : ∃ extraction,
      extractor.run unit.path unit.nodes .empty = (none, extraction) ∧ _ :=
    run_eq_addAll goesOn visits .empty
  have same : extractor.alone unit = extraction := congrArg Prod.snd run
  obtain ⟨last, ended, isLast⟩ := exists_route_of_complete run complete
  obtain ⟨added, counted, -⟩ := Extraction.finish_route ended
  have way := Extraction.route_adds rfl ended
  rw [← isLast, ← same] at added counted
  have diagnostics : (extractor.alone unit).result.diagnostics
      = (walk unit.nodes).flatMap (extractor.diagnosticsAt unit.path) := by
    rw [same, isLast]
    exact way.diagnostics
  refine ⟨same ▸ run, ?_, same ▸ complete, fun diagnostic member => ?_, ?_⟩
  · rw [same, isLast]
    exact way.path
  · rw [diagnostics] at member
    obtain ⟨node, -, member⟩ := List.mem_flatMap.mp member
    exact path_of_mem_diagnosticsAt member
  · rw [added, counted]
    have few := Catalogue.size_addAll_le .empty (extractor.addedMessages unit.path unit.nodes)
    rwa [show Catalogue.empty.size = 0 from rfl, Nat.zero_add] at few

/-- An extraction into a catalogue that is not empty finds what it finds in the file alone, and leaves the
catalogue as if that were merged into it. -/
theorem run_eq_merge (goesOn : extractor.effectivePolicy = .goOn) (visits : extractor.Visits unit.nodes)
    (catalogue : Catalogue) :
    ∃ extraction, extractor.run unit.path unit.nodes catalogue = (none, extraction) ∧
      extraction.result = (extractor.alone unit).result ∧
      extraction.catalogue = catalogue.merge (extractor.alone unit).catalogue := by
  obtain ⟨extraction, run, complete, added⟩ : ∃ extraction,
      extractor.run unit.path unit.nodes catalogue = (none, extraction) ∧ _ :=
    run_eq_addAll goesOn visits catalogue
  have completes := completes goesOn visits
  refine ⟨extraction, run, ?_, ?_⟩
  · obtain ⟨last, ended, rfl⟩ := exists_route_of_complete run complete
    obtain ⟨lastAlone, endedAlone, isLast⟩ := exists_route_of_complete completes.run completes.complete
    have atStart : Extraction.Agrees { catalogue, result := { path := unit.path } }
        { catalogue := .empty, result := { path := unit.path } } := ⟨rfl, rfl, rfl⟩
    have atEnd := Extraction.agrees_foldlM (Extraction.step extractor) Extraction.agrees_step atStart ended endedAlone
    rw [isLast]
    exact atEnd.finish.result
  · rw [added, catalogue_of_complete completes.run completes.complete, Catalogue.merge_addAll_empty]
    exact fun message member => hasDistinctLanguages_of_mem_addedMessages member

end Extractor

end FormHarvest
