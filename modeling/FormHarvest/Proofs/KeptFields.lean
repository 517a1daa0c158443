import FormHarvest.Proofs.FurtherFields

namespace FormHarvest

namespace Extractor

theorem addFields_addFields (extractor : Extractor) (names further : List String) :
    (extractor.addFields names).addFields further = extractor.addFields (names ++ further) := by
  simp only [addFields, List.foldl_append]

theorem mem_customFields_addFields {extractor : Extractor} {names : List String} {name : String} :
    name ∈ (extractor.addFields names).customFields ↔ name ∈ extractor.customFields ∨ name ∈ names := by
  simp only [addFields]
  generalize extractor.customFields = known
  induction names generalizing known with
  | nil => simp
  | cons first rest ih =>
    rw [List.foldl_cons, ih, List.mem_cons, ← or_assoc]
    by_cases there : first ∈ known
    · rw [if_pos (List.contains_iff_mem.mpr there)]
      grind
    · rw [if_neg (by simpa using there), List.mem_append, List.mem_singleton]

theorem mem_fields_iff {extractor : Extractor} {name : String} :
    name ∈ extractor.fields ↔ name ∈ builtinFields ∨ name ∈ extractor.customFields := by
  by_cases builtin : name ∈ builtinFields <;> simp [fields, builtin]

/-- Two extractors with the same settings that take the same options for texts do the same. -/
theorem run_congr {one other : Extractor} (convention : one.convention = other.convention)
    (policy : one.policy = other.policy) (logger : one.logger = other.logger) (maxDepth : one.maxDepth = other.maxDepth)
    (isField : one.isField = other.isField) (path : String) (nodes : List Node) (catalogue : Catalogue)
    (visits : Option Nat) : one.run path nodes catalogue visits = other.run path nodes catalogue visits := by
  have read : Extraction.readText one = Extraction.readText other := by
    funext extraction text
    simp only [Extraction.readText, effectivePolicy, policy, logger]
  have visit : Extraction.visit one = Extraction.visit other := by
    funext extraction node
    cases node <;> simp only [Extraction.visit, convention, isField, read]
  have step : Extraction.step one = Extraction.step other := by
    funext extraction station
    cases station <;> simp only [Extraction.step, visit, maxDepth]
  simp only [run, step]

end Extractor

/-- An extractor that keeps the list of its options once it was made. -/
structure KeepingExtractor where
  extractor : Extractor
  kept : Option (List String) := none

namespace KeepingExtractor

/-- Adds options that hold texts. The list has to be made again. -/
def addFields (keeping : KeepingExtractor) (names : List String) : KeepingExtractor :=
  { extractor := keeping.extractor.addFields names }

/-- The list of the options that hold texts, which is kept from then on. -/
def fields (keeping : KeepingExtractor) : List String × KeepingExtractor :=
  match keeping.kept with
  | some list => (list, keeping)
  | none => (keeping.extractor.fields, { keeping with kept := some keeping.extractor.fields })

def isField (keeping : KeepingExtractor) (name : String) : Bool × KeepingExtractor :=
  (keeping.fields.1.contains name, keeping.fields.2)

/-- What an extraction comes to, with the extractor as it is left. -/
def leaving (keeping : KeepingExtractor) :
    Except (Interruption × Extraction) Extraction →
      Except (Interruption × Extraction × KeepingExtractor) (Extraction × KeepingExtractor)
  | .ok extraction => .ok (extraction, keeping)
  | .error (interruption, extraction) => .error (interruption, extraction, keeping)

/-- Reads the texts of one item of an option array. Only of an option that is not read in a way of its own it
is asked whether it holds texts. -/
def readItem (items : List (ArrayItem Node)) (state : Extraction × KeepingExtractor) (item : ArrayItem Node) :
    Except (Interruption × Extraction × KeepingExtractor) (Extraction × KeepingExtractor) :=
  let (holdsTexts, keeping) :=
    match item.askedField? with
    | some name => state.2.isField name
    | none => (false, state.2)
  keeping.leaving <|
    (itemTexts keeping.extractor.convention (fun _ => holdsTexts) items item).foldlM
      (Extraction.readText keeping.extractor) state.1

def visit (state : Extraction × KeepingExtractor) (node : Node) :
    Except (Interruption × Extraction × KeepingExtractor) (Extraction × KeepingExtractor) :=
  match node with
  | .array items _ => items.foldlM (readItem items) state
  | node => state.2.leaving (Extraction.visit state.2.extractor state.1 node)

def step (state : Extraction × KeepingExtractor) :
    Waypoint → Except (Interruption × Extraction × KeepingExtractor) (Extraction × KeepingExtractor)
  | .visit depth node =>
    if state.2.extractor.maxDepth ≤ depth then .error (.tooDeep node.isMethodCall, state)
    else
      match state.1.takeVisit? with
      | none => .error (.stopped, state)
      | some extraction => visit (extraction, state.2) node
  | .leave => state.2.leaving (Extraction.step state.2.extractor state.1 .leave)

/-- Extracts the texts of a file into a catalogue, and leaves the extractor with the list that it has made on
the way. -/
def run (keeping : KeepingExtractor) (path : String) (nodes : List Node) (catalogue : Catalogue)
    (visits : Option Nat := none) : (Option Interruption × Extraction) × KeepingExtractor :=
  let start : Extraction := { catalogue, result := { path }, visitsLeft := visits }
  match (routeThrough nodes).foldlM step (start, keeping) with
  | .ok (extraction, keeping) => ((none, extraction.finish), keeping)
  | .error (.stopped, extraction, keeping) => ((none, extraction.stop), keeping)
  | .error (interruption, extraction, keeping) => ((some interruption, extraction), keeping)

/-- The list that is kept is not an old one. -/
structure IsFresh (extractor : Extractor) (keeping : KeepingExtractor) : Prop where
  same : keeping.extractor = extractor
  fresh : ∀ list ∈ keeping.kept, list = extractor.fields

variable {extractor : Extractor} {keeping : KeepingExtractor}

theorem IsFresh.addFields (fresh : keeping.IsFresh extractor) (names : List String) :
    (keeping.addFields names).IsFresh (extractor.addFields names) :=
  ⟨fresh.same ▸ rfl, fun _ member => nomatch member⟩

theorem IsFresh.fields_fst (fresh : keeping.IsFresh extractor) : keeping.fields.1 = extractor.fields := by
  unfold fields
  split
  · rename_i list kept
    exact fresh.fresh list kept
  · rw [fresh.same]

theorem IsFresh.fields_snd (fresh : keeping.IsFresh extractor) : keeping.fields.2.IsFresh extractor := by
  unfold fields
  split
  · exact fresh
  · exact ⟨fresh.same, fun list member => by cases member; rw [fresh.same]⟩

/-- An extractor with a fresh list comes to what the extractor without a list comes to, and its list is fresh
afterwards. -/
def Follows (extractor : Extractor) (result : Except (Interruption × Extraction) Extraction)
    (kept : Except (Interruption × Extraction × KeepingExtractor) (Extraction × KeepingExtractor)) : Prop :=
  ∃ after : KeepingExtractor, after.IsFresh extractor ∧ kept = after.leaving result

theorem IsFresh.follows (fresh : keeping.IsFresh extractor) (result : Except (Interruption × Extraction) Extraction) :
    Follows extractor result (keeping.leaving result) :=
  ⟨keeping, fresh, rfl⟩

/-- Acts of which each one follows the other extractor do so one after the other. -/
theorem follows_foldlM {α : Type} {act : Extraction → α → Except (Interruption × Extraction) Extraction}
    {keepingAct : Extraction × KeepingExtractor → α →
      Except (Interruption × Extraction × KeepingExtractor) (Extraction × KeepingExtractor)}
    (acts : ∀ extraction keeping a, keeping.IsFresh extractor →
      Follows extractor (act extraction a) (keepingAct (extraction, keeping) a))
    (fresh : keeping.IsFresh extractor) (all : List α) (extraction : Extraction) :
    Follows extractor (all.foldlM act extraction) (all.foldlM keepingAct (extraction, keeping)) := by
  induction all generalizing extraction keeping with
  | nil => exact ⟨keeping, fresh, rfl⟩
  | cons first rest ih =>
    obtain ⟨after, freshAfter, same⟩ := acts extraction keeping first fresh
    rw [List.foldlM_cons, List.foldlM_cons, same]
    cases act extraction first with
    | error interrupted => exact ⟨after, freshAfter, rfl⟩
    | ok next => exact ih freshAfter next

theorem foldlM_flatMap {α β σ ε : Type} (act : σ → β → Except ε σ) (parts : α → List β) (all : List α) (start : σ) :
    (all.flatMap parts).foldlM act start = all.foldlM (fun state a => (parts a).foldlM act state) start := by
  induction all generalizing start with
  | nil => rfl
  | cons first rest ih => simp only [List.flatMap_cons, List.foldlM_append, List.foldlM_cons, ih]

theorem follows_readItem (fresh : keeping.IsFresh extractor) (items : List (ArrayItem Node))
    (extraction : Extraction) (item : ArrayItem Node) :
    Follows extractor
      ((itemTexts extractor.convention extractor.isField items item).foldlM (Extraction.readText extractor) extraction)
      (readItem items (extraction, keeping) item) := by
  unfold readItem
  cases asked : item.askedField? with
  | none =>
    have same : itemTexts extractor.convention extractor.isField items item
        = itemTexts extractor.convention (fun _ => false) items item :=
      itemTexts_congr fun name member => by rw [asked] at member; cases member
    rw [same]
    simp only [fresh.same]
    exact fresh.follows _
  | some name =>
    have same : itemTexts extractor.convention extractor.isField items item
        = itemTexts extractor.convention (fun _ => extractor.fields.contains name) items item :=
      itemTexts_congr fun other member => by rw [asked] at member; cases member; rfl
    rw [same]
    simp only [isField, fresh.fields_fst, fresh.fields_snd.same]
    exact fresh.fields_snd.follows _

theorem follows_visit (fresh : keeping.IsFresh extractor) (extraction : Extraction) (node : Node) :
    Follows extractor (Extraction.visit extractor extraction node) (visit (extraction, keeping) node) := by
  cases node with
  | array items mark =>
    have parts : Extraction.visit extractor extraction (.array items mark)
        = items.foldlM (fun extraction item =>
            (itemTexts extractor.convention extractor.isField items item).foldlM
              (Extraction.readText extractor) extraction) extraction := by
      rw [Extraction.visit, textItems_eq_flatMap, foldlM_flatMap]
    rw [parts]
    exact follows_foldlM (fun extraction keeping item fresh => follows_readItem fresh items extraction item)
      fresh items extraction
  | _ =>
    simp only [visit, fresh.same]
    exact fresh.follows _

theorem follows_step (fresh : keeping.IsFresh extractor) (extraction : Extraction) (station : Waypoint) :
    Follows extractor (Extraction.step extractor extraction station) (step (extraction, keeping) station) := by
  cases station with
  | leave =>
    simp only [step, fresh.same]
    exact fresh.follows _
  | visit depth node =>
    simp only [Extraction.step, step, fresh.same]
    split
    · exact ⟨keeping, fresh, rfl⟩
    · cases extraction.takeVisit? with
      | none => exact ⟨keeping, fresh, rfl⟩
      | some next => exact follows_visit fresh next node

/-- An extractor with a fresh list finds what the extractor without a list finds. -/
theorem IsFresh.run (fresh : keeping.IsFresh extractor) (path : String) (nodes : List Node) (catalogue : Catalogue)
    (visits : Option Nat) :
    (keeping.run path nodes catalogue visits).1 = extractor.run path nodes catalogue visits ∧
      (keeping.run path nodes catalogue visits).2.IsFresh extractor := by
  obtain ⟨after, freshAfter, same⟩ := follows_foldlM (fun extraction _ station fresh =>
    follows_step fresh extraction station) fresh (routeThrough nodes)
    { catalogue, result := { path }, visitsLeft := visits }
  simp only [KeepingExtractor.run, Extractor.run, same]
  cases (routeThrough nodes).foldlM (Extraction.step extractor)
      { catalogue, result := { path }, visitsLeft := visits } with
  | ok extraction => exact ⟨rfl, freshAfter⟩
  | error interrupted =>
    obtain ⟨interruption, extraction⟩ := interrupted
    cases interruption <;> exact ⟨rfl, freshAfter⟩

/-- What is done with an extractor before an extraction: options are added, it is asked for them, or another
file is extracted, which may be stopped or interrupted. -/
inductive Deed where
  | addFields (names : List String)
  | fields
  | isField (name : String)
  | run (path : String) (nodes : List Node) (catalogue : Catalogue) (visits : Option Nat)

/-- The options that a deed adds. -/
def Deed.names : Deed → List String
  | addFields names => names
  | _ => []

def act (keeping : KeepingExtractor) : Deed → KeepingExtractor
  | .addFields names => keeping.addFields names
  | .fields => keeping.fields.2
  | .isField name => (keeping.isField name).2
  | .run path nodes catalogue visits => (keeping.run path nodes catalogue visits).2

/-- An extractor that is made with some options besides those of every extractor. -/
def made (settings : Extractor) (names : List String) : KeepingExtractor :=
  ({ extractor := { settings with customFields := [] } } : KeepingExtractor).addFields names

/-- An extractor that was made with some options, after deeds. -/
def after (settings : Extractor) (names : List String) (deeds : List Deed) : KeepingExtractor :=
  deeds.foldl act (made settings names)

/-- All options that an extractor was told of. -/
def told (names : List String) (deeds : List Deed) : List String := names ++ deeds.flatMap Deed.names

/-- The extractor with the options that it was told of, and no list of them. -/
def plain (settings : Extractor) (names : List String) (deeds : List Deed) : Extractor :=
  { settings with customFields := [] }.addFields (told names deeds)

theorem IsFresh.act (fresh : keeping.IsFresh extractor) (deed : Deed) :
    (keeping.act deed).IsFresh (extractor.addFields deed.names) := by
  cases deed with
  | addFields names => exact fresh.addFields names
  | fields => exact fresh.fields_snd
  | isField name => exact fresh.fields_snd
  | run path nodes catalogue visits => exact (fresh.run path nodes catalogue visits).2

theorem isFresh_after (settings : Extractor) (names : List String) (deeds : List Deed) :
    (after settings names deeds).IsFresh (plain settings names deeds) := by
  have behind (keeping : KeepingExtractor) (extractor : Extractor) (fresh : keeping.IsFresh extractor) :
      (deeds.foldl KeepingExtractor.act keeping).IsFresh (extractor.addFields (deeds.flatMap Deed.names)) := by
    induction deeds generalizing keeping extractor with
    | nil => exact fresh
    | cons first rest ih =>
      have next := ih _ _ (fresh.act first)
      rwa [Extractor.addFields_addFields] at next
  have atStart : (made settings names).IsFresh ({ settings with customFields := [] }.addFields names) :=
    ⟨rfl, fun _ member => nomatch member⟩
  have whole := behind _ _ atStart
  rwa [Extractor.addFields_addFields] at whole

theorem mem_fields_plain {settings : Extractor} {names : List String} {deeds : List Deed} {name : String} :
    name ∈ (plain settings names deeds).fields ↔ name ∈ builtinFields ∨ name ∈ told names deeds := by
  rw [Extractor.mem_fields_iff, plain, Extractor.mem_customFields_addFields]
  simp

section FurtherFields

variable {settings : Extractor} {nodes : List Node} {fewer more : List String} {deeds others : List Deed}

theorem widens_plain (within : told fewer deeds ⊆ told more others) :
    (plain settings fewer deeds).Widens (plain settings more others) where
  convention := rfl
  isField name isField := by
    rw [Extractor.isField, List.contains_iff_mem, mem_fields_plain] at isField ⊢
    exact isField.imp_right fun member => within member

/-- **Further options only add.** An extractor always knows the options that it was told of, when it was made
or later, whatever it was asked and whatever it extracted in between. If it was told of all options of another
one, it finds all that the other one finds, each text at its place under the same domain, and notes all values
that the other one cannot read. If it was told of no other options, both do the same. -/
theorem further_fields_only_add (goesOn : settings.effectivePolicy = .goOn) (visits : settings.Visits nodes)
    (within : told fewer deeds ⊆ told more others) (path : String) (catalogue : Catalogue) :
    ∃ first second,
      ((after settings fewer deeds).run path nodes catalogue).1 = (none, first) ∧ first.result.complete = true ∧
      ((after settings more others).run path nodes catalogue).1 = (none, second) ∧
      second.result.complete = true ∧
      first.catalogue.findings ⊆ second.catalogue.findings ∧
      first.result.diagnostics.Sublist second.result.diagnostics ∧
      (told more others ⊆ builtinFields ++ told fewer deeds → second = first) ∧
      (∀ visits, ((after settings fewer deeds).run path nodes catalogue visits).1
        = (plain settings fewer deeds).run path nodes catalogue visits) ∧
      ∀ name, name ∈ (after settings fewer deeds).fields.1 ↔
        name ∈ builtinFields ∨ name ∈ told fewer deeds := by
  have freshFirst := isFresh_after settings fewer deeds
  have freshSecond := isFresh_after settings more others
  have runFirst := (freshFirst.run path nodes catalogue none).1
  have runSecond := (freshSecond.run path nodes catalogue none).1
  have widens : (plain settings fewer deeds).Widens (plain settings more others) := widens_plain within
  have yields (names : List String) (deeds : List Deed) :=
    Extractor.yields (show (plain settings names deeds).effectivePolicy = .goOn from goesOn)
      ⟨visits.shallow, visits.noUnit⟩ path
  obtain ⟨first, firstRun, firstComplete, firstAdds⟩ := (yields fewer deeds).run catalogue
  obtain ⟨second, secondRun, secondComplete, secondAdds⟩ := (yields more others).run catalogue
  refine ⟨first, second, runFirst.trans firstRun, firstComplete, runSecond.trans secondRun, secondComplete,
    ?_, ?_, fun same => ?_, fun visits => (freshFirst.run path nodes catalogue visits).1, fun name => ?_⟩
  · rw [firstAdds.catalogue, secondAdds.catalogue]
    exact Catalogue.findings_addAll_subset catalogue (widens.addedMessages_sublist path nodes).subset
  · rw [firstAdds.diagnostics, secondAdds.diagnostics]
    exact widens.diagnostics_sublist path nodes
  · have isField : (plain settings more others).isField = (plain settings fewer deeds).isField := by
      funext name
      rw [Bool.eq_iff_iff, Extractor.isField, Extractor.isField, List.contains_iff_mem, List.contains_iff_mem,
        mem_fields_plain, mem_fields_plain]
      constructor
      · rintro (builtin | member)
        · exact .inl builtin
        · exact List.mem_append.mp (same member)
      · exact .imp_right fun member => within member
    have alike : (plain settings more others).run path nodes catalogue
        = (plain settings fewer deeds).run path nodes catalogue := by
      refine Extractor.run_congr ?_ ?_ ?_ ?_ isField path nodes catalogue none <;> rfl
    rw [firstRun, secondRun] at alike
    exact congrArg Prod.snd alike
  · rw [freshFirst.fields_fst]
    exact mem_fields_plain

end FurtherFields

/-- A class with a field that has a text for help, hints of which one is no text, and a late default domain. -/
def helpfulField : List Node :=
  let text (value : String) : Node := .string value false { line := 4 }
  let pair (key : String) (value : Node) : ArrayItem Node :=
    { key := some (text key), value := some value, mark := { line := 4 } }
  let hints : List (ArrayItem Node) :=
    [{ key := none, value := some (text "As in the passport") },
      { key := none, value := some (.variable "$hint" { line := 5 }) }]
  [.classBody "PersonType" [
    .methodCall (.variable "$builder" { line := 4 }) "add" [.array [
      pair "label" (text "Name"), pair "help" (.variable "$help" { line := 4 }),
      pair "hints" (.array hints { line := 5 })] { line := 4 }] { line := 4 },
    .methodCall (.variable "$resolver" { line := 6 }) "setDefaults" [.array [
      pair "translation_domain" (text "person")] { line := 6 }] { line := 6 }] { line := 2 }]

/-- What was asked and extracted before the second option was added is forgotten. -/
theorem helpfulField_finds_more :
    ∃ first second,
      ((after Extractor.goingOn ["hints"] [.fields]).run "PersonType.php" helpfulField .empty).1 = (none, first) ∧
      ((after Extractor.goingOn ["help"] [.isField "hints", .run "Other.php" helpfulField .empty (some 5),
        .addFields ["label", "hints", "help"]]).run "PersonType.php" helpfulField .empty).1 = (none, second) ∧
      first.catalogue.findings ⊆ second.catalogue.findings ∧
      first.result.diagnostics.Sublist second.result.diagnostics ∧
      first.catalogue.findings
        = [("Name", some "person", ⟨"PersonType.php", 4⟩),
          ("As in the passport", some "person", ⟨"PersonType.php", 4⟩)] ∧
      first.result.diagnostics = [] ∧
      second.result.diagnostics = [.unreadable "PersonType.php" 4 "Variable"] := by
  obtain ⟨first, second, firstRun, -, secondRun, -, found, noted, -⟩ :=
    further_fields_only_add (show Extractor.goingOn.effectivePolicy = .goOn from rfl)
      (show Extractor.goingOn.Visits helpfulField from ⟨by decide +kernel, by decide +kernel⟩)
      (show told ["hints"] [.fields] ⊆ told ["help"] [.isField "hints",
        .run "Other.php" helpfulField .empty (some 5), .addFields ["label", "hints", "help"]] by decide +kernel)
      "PersonType.php" .empty
  refine ⟨first, second, firstRun, secondRun, found, noted, ?_, ?_, ?_⟩
  · rw [← congrArg (·.2.catalogue.findings) firstRun]
    decide +kernel
  · rw [← congrArg (·.2.result.diagnostics) firstRun]
    decide +kernel
  · rw [← congrArg (·.2.result.diagnostics) secondRun]
    decide +kernel

end KeepingExtractor

end FormHarvest
