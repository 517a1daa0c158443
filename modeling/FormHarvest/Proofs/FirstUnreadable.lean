import FormHarvest.Proofs.StoppedRuns
import FormHarvest.Run.Outcome

namespace FormHarvest

/-- A list that gives something has a first member that does. -/
theorem exists_first_of_flatMap_eq_cons {α β : Type} {f : α → List β} {stations : List α} {first : β}
    {others : List β} (given : stations.flatMap f = first :: others) :
    ∃ earlier station later rest, stations = earlier ++ station :: later ∧
      (∀ before ∈ earlier, f before = []) ∧ f station = first :: rest := by
  induction stations with
  | nil => cases given
  | cons station later ih =>
    rw [List.flatMap_cons] at given
    cases atStation : f station with
    | cons head rest =>
      rw [atStation] at given
      cases given
      exact ⟨[], station, later, rest, rfl, List.forall_mem_nil _, atStation⟩
    | nil =>
      rw [atStation] at given
      obtain ⟨earlier, found, behind, rest, rfl, nothing, atFound⟩ := ih given
      exact ⟨station :: earlier, found, behind, rest, rfl,
        List.forall_mem_cons.mpr ⟨atStation, nothing⟩, atFound⟩

namespace Extractor

/-- Two extractors that look for the same texts. Where a value cannot be read the lenient one goes on
and the strict one gives up. -/
structure Counterparts (lenient strict : Extractor) : Prop where
  convention : strict.convention = lenient.convention
  customFields : strict.customFields = lenient.customFields
  maxDepth : strict.maxDepth = lenient.maxDepth
  goesOn : lenient.effectivePolicy = .goOn
  givesUp : strict.effectivePolicy = .abort

theorem Counterparts.textItems_eq {lenient strict : Extractor} (pair : Counterparts lenient strict)
    (items : List (ArrayItem Node)) :
    textItems strict.convention strict.isField items
      = textItems lenient.convention lenient.isField items := by
  have isField : strict.isField = lenient.isField := by
    funext name
    rw [Extractor.isField, Extractor.fields, pair.customFields]
    rfl
  rw [pair.convention, isField]

end Extractor

namespace Extraction

open Extractor (Counterparts)

variable {lenient strict : Extractor} {before after : Extraction}

/-- A text that can be read is read alike by all. -/
theorem readText_eq_of_readable (one other : Extractor) {text : TextItem}
    (readable : Extractor.unreadable? before.result.path text = none) :
    readText one before text = readText other before text := by
  unfold readText
  unfold Extractor.unreadable? at readable
  split
  · rfl
  rcases reading : Finding.ofItem before.result.path text.item with ⟨finding, records⟩
  rw [reading] at readable
  cases finding with
  | diagnostic diagnostic => cases readable
  | nothing => rfl
  | entry entry => rfl

/-- At a text that cannot be read the one goes on from where the other gives up. -/
theorem readText_strict_eq_error (pair : Counterparts lenient strict) {text : TextItem}
    {diagnostic : Diagnostic} (run : readText lenient before text = .ok after)
    (unreadable : Extractor.unreadable? before.result.path text = some diagnostic) :
    ∃ aborted, readText strict before text = .error (.unreadable diagnostic, aborted) ∧
      aborted.catalogue = after.catalogue := by
  unfold readText at run ⊢
  unfold Extractor.unreadable? at unreadable
  split at run
  · cases run
  rename_i noUnit
  rw [if_neg noUnit]
  rcases reading : Finding.ofItem before.result.path text.item with ⟨finding, records⟩
  rw [reading] at run unreadable
  cases finding with
  | diagnostic found =>
    cases unreadable
    simp only [pair.goesOn] at run
    cases run
    simp only [pair.givesUp]
    exact ⟨_, rfl, rfl⟩
  | nothing => cases unreadable
  | entry entry => cases unreadable

theorem readTexts_strict {texts : List TextItem}
    (run : texts.foldlM (readText lenient) before = .ok after)
    (readable : ∀ text ∈ texts, Extractor.unreadable? before.result.path text = none) :
    texts.foldlM (readText strict) before = .ok after := by
  have agree : ∀ text ∈ texts, ∀ state next : Extraction, state.result.path = before.result.path →
      readText lenient state text = .ok next →
      readText strict state text = .ok next ∧ next.result.path = before.result.path := by
    intro text member state next samePath read
    have atText := readable text member
    rw [← samePath] at atText
    rw [readText_eq_of_readable strict lenient atText]
    exact ⟨read, (readText_brings read).path.trans samePath⟩
  exact foldlM_agrees agree rfl run

/-- Of texts that cannot all be read the strict extractor gives up at the first, and leaves the
catalogue as the lenient one has it there. -/
theorem readTexts_strict_eq_error (pair : Counterparts lenient strict) {texts : List TextItem}
    {first : Diagnostic} {others : List Diagnostic}
    (run : texts.foldlM (readText lenient) before = .ok after)
    (noted : texts.filterMap (Extractor.unreadable? before.result.path) = first :: others) :
    ∃ read text unread clean moment aborted, texts = read ++ text :: unread ∧
      read.foldlM (readText lenient) before = .ok clean ∧
      clean.result.diagnostics = before.result.diagnostics ∧
      readText lenient clean text = .ok moment ∧
      moment.result.diagnostics = before.result.diagnostics ++ [first] ∧
      texts.foldlM (readText strict) before = .error (.unreadable first, aborted) ∧
      aborted.catalogue = moment.catalogue := by
  obtain ⟨read, text, unread, rfl, readable, unreadable, -⟩ := List.filterMap_eq_cons_iff.mp noted
  obtain ⟨clean, readRun, run⟩ := foldlM_append_eq_ok_iff.mp run
  obtain ⟨moment, notes, -⟩ := foldlM_cons_eq_ok_iff.mp run
  have same : clean.result.diagnostics = before.result.diagnostics := by
    rw [readTexts_note readRun, List.filterMap_eq_nil_iff.mpr readable, List.append_nil]
  have samePath : clean.result.path = before.result.path := (readTexts_bring readRun).path
  rw [← samePath] at unreadable
  obtain ⟨aborted, abort, sameCatalogue⟩ := readText_strict_eq_error pair notes unreadable
  refine ⟨read, text, unread, clean, moment, aborted, rfl, readRun, same, notes, ?_, ?_, sameCatalogue⟩
  · rw [readText_notes notes, unreadable, same]
    rfl
  · rw [foldlM_append_of_ok (readTexts_strict readRun readable), List.foldlM_cons, abort]
    rfl

/-- Where nothing is noted the strict extractor takes the same step. -/
theorem step_strict (pair : Counterparts lenient strict) {station : Waypoint}
    (run : step lenient before station = .ok after)
    (nothing : lenient.diagnosticsOn before.result.path station = []) :
    step strict before station = .ok after := by
  cases station with
  | leave => exact run
  | visit depth node =>
    simp only [step, pair.maxDepth] at run ⊢
    split at run
    · cases run
    split at run
    · cases run
    rename_i shallow _ entered more
    rw [if_neg shallow]
    have samePath : entered.result.path = before.result.path := (takeVisit?_brings more).path
    cases node with
    | array items mark =>
      simp only [visit, pair.textItems_eq] at run ⊢
      refine readTexts_strict run (List.filterMap_eq_nil_iff.mp ?_)
      rw [samePath]
      exact nothing
    | _ => exact run

/-- On a part of the way where nothing is noted the strict extractor goes the same way. -/
theorem foldlM_step_strict (pair : Counterparts lenient strict) {stations : List Waypoint}
    (run : stations.foldlM (step lenient) before = .ok after)
    (nothing : ∀ station ∈ stations, lenient.diagnosticsOn before.result.path station = []) :
    stations.foldlM (step strict) before = .ok after := by
  have agree : ∀ station ∈ stations, ∀ state next : Extraction,
      state.result.path = before.result.path → step lenient state station = .ok next →
      step strict state station = .ok next ∧ next.result.path = before.result.path := by
    intro station member state next samePath taken
    have atStation := nothing station member
    rw [← samePath] at atStation
    exact ⟨step_strict pair taken atStation, (path_of_step taken).trans samePath⟩
  exact foldlM_agrees agree rfl run

/-- The state in which an extraction is when it notes its first diagnostic: behind the stations and
the texts before, at which nothing was noted. -/
inductive NotesFirst (extractor : Extractor) (nodes : List Node) (start : Extraction)
    (first : Diagnostic) : Extraction → Prop
  | intro {earlier later : List Waypoint} {depth : Nat} {items : List (ArrayItem Node)} {mark : Mark}
      {before entered clean moment : Extraction} {read unread : List TextItem} {text : TextItem}
      (way : routeThrough nodes = earlier ++ .visit depth (.array items mark) :: later)
      (reached : earlier.foldlM (step extractor) start = .ok before)
      (enters : before.takeVisit? = some entered)
      (texts : textItems extractor.convention extractor.isField items = read ++ text :: unread)
      (reads : read.foldlM (readText extractor) entered = .ok clean)
      (nothing : clean.result.diagnostics = [])
      (notes : readText extractor clean text = .ok moment)
      (noted : moment.result.diagnostics = [first]) : NotesFirst extractor nodes start first moment

/-- Where something is noted the strict extractor gives up. -/
theorem step_strict_eq_error (pair : Counterparts lenient strict) {station : Waypoint}
    {first : Diagnostic} {others : List Diagnostic} (run : step lenient before station = .ok after)
    (noted : lenient.diagnosticsOn before.result.path station = first :: others) :
    ∃ depth items mark entered read text unread clean moment aborted,
      station = .visit depth (.array items mark) ∧ before.takeVisit? = some entered ∧
      textItems lenient.convention lenient.isField items = read ++ text :: unread ∧
      read.foldlM (readText lenient) entered = .ok clean ∧
      clean.result.diagnostics = before.result.diagnostics ∧
      readText lenient clean text = .ok moment ∧
      moment.result.diagnostics = before.result.diagnostics ++ [first] ∧
      step strict before station = .error (.unreadable first, aborted) ∧
      aborted.catalogue = moment.catalogue := by
  cases station with
  | leave => cases noted
  | visit depth node =>
    cases node with
    | array items mark =>
      simp only [step, pair.maxDepth] at run ⊢
      split at run
      · cases run
      split at run
      · cases run
      rename_i shallow _ entered more
      have sameResult := takeVisit?_result more
      have noted' : (textItems lenient.convention lenient.isField items).filterMap
          (Extractor.unreadable? entered.result.path) = first :: others := by
        rw [sameResult]
        exact noted
      obtain ⟨read, text, unread, clean, moment, aborted, texts, reads, same, notes, atMoment, abort,
        sameCatalogue⟩ := readTexts_strict_eq_error pair run noted'
      rw [sameResult] at same atMoment
      refine ⟨depth, items, mark, entered, read, text, unread, clean, moment, aborted, rfl, more, texts,
        reads, same, notes, atMoment, ?_, sameCatalogue⟩
      simp only [if_neg shallow, visit, pair.textItems_eq, abort]
    | _ => cases noted

/-- On a way on which something is noted the strict extractor gives up at the first, and leaves the
catalogue as the lenient one has it there. -/
theorem routeThrough_strict_eq_error (pair : Counterparts lenient strict) {nodes : List Node}
    {start : Extraction} {first : Diagnostic} {others : List Diagnostic}
    (fresh : start.result.diagnostics = [])
    (run : (routeThrough nodes).foldlM (step lenient) start = .ok after)
    (noted : after.result.diagnostics = first :: others) :
    ∃ moment aborted, NotesFirst lenient nodes start first moment ∧
      (routeThrough nodes).foldlM (step strict) start = .error (.unreadable first, aborted) ∧
      aborted.catalogue = moment.catalogue := by
  rw [foldlM_step_notes run, fresh, List.nil_append] at noted
  obtain ⟨earlier, station, later, rest, way, nothing, atStation⟩ := exists_first_of_flatMap_eq_cons noted
  rw [way] at run
  obtain ⟨before, reached, run⟩ := foldlM_append_eq_ok_iff.mp run
  obtain ⟨behind, taken, -⟩ := foldlM_cons_eq_ok_iff.mp run
  have samePath : before.result.path = start.result.path := path_of_foldlM_step reached
  have clean : before.result.diagnostics = [] := by
    rw [foldlM_step_notes reached, fresh, List.flatMap_eq_nil_iff.mpr nothing, List.append_nil]
  rw [← samePath] at atStation
  obtain ⟨depth, items, mark, entered, read, text, unread, atText, moment, aborted, rfl, more, texts,
    reads, same, notes, atMoment, abort, sameCatalogue⟩ := step_strict_eq_error pair taken atStation
  rw [clean] at same atMoment
  refine ⟨moment, aborted, .intro way reached more texts reads same notes atMoment, ?_, sameCatalogue⟩
  rw [way, foldlM_append_of_ok (foldlM_step_strict pair reached nothing), List.foldlM_cons, abort]
  rfl

end Extraction

namespace Extractor

variable {lenient strict : Extractor} {nodes : List Node}

/-- Without a value that cannot be read both extractors come to the same end. Otherwise the strict one
gives up with the first diagnostic of the lenient one, and leaves the catalogue as the lenient one had
it when it noted that diagnostic. -/
theorem run_strict_cut_at_first_diagnostic (pair : Counterparts lenient strict)
    (possible : lenient.Visits nodes) (path : String) (catalogue : Catalogue) :
    ∃ continued, lenient.run path nodes catalogue = (none, continued) ∧
      (continued.result.diagnostics = [] → strict.run path nodes catalogue = (none, continued)) ∧
      ∀ first others, continued.result.diagnostics = first :: others →
        ∃ moment aborted,
          Extraction.NotesFirst lenient nodes { catalogue, result := { path } } first moment ∧
          strict.run path nodes catalogue = (some (.unreadable first), aborted) ∧
          (RunFault.interrupted (.unreadable first)).message = first.message ∧
          aborted.catalogue = moment.catalogue := by
  obtain ⟨continued, run, complete, -⟩ : ∃ continued,
      lenient.run path nodes catalogue = (none, continued) ∧ _ :=
    run_eq_addAll pair.goesOn possible catalogue
  obtain ⟨last, way, rfl⟩ := exists_route_of_complete run complete
  refine ⟨last.finish, run, fun nothing => ?_, fun first others noted => ?_⟩
  · have nothingNoted : last.result.diagnostics = [] := nothing
    rw [Extraction.foldlM_step_notes way, List.nil_append, List.flatMap_eq_nil_iff] at nothingNoted
    have sameWay := Extraction.foldlM_step_strict pair way nothingNoted
    simp only [Extractor.run, sameWay]
  · obtain ⟨moment, aborted, notes, abort, same⟩ :=
      Extraction.routeThrough_strict_eq_error pair rfl way noted
    refine ⟨moment, aborted, notes, ?_, rfl, same⟩
    simp only [Extractor.run, abort]

/-- A class whose label can be read, and behind it labels of which the first and the last cannot. -/
def unreadableLabels : List Node :=
  let labelled (value : Node) (line : Int) : Node :=
    .array [⟨some (.string "label" false ⟨line, none⟩), some value, false, false, ⟨line, none⟩⟩]
      ⟨line, none⟩
  [formClass "PersonType" "Name" "person" 2, labelled (.variable "$title" ⟨7, none⟩) 7,
    labelled (.string "Street" false ⟨8, none⟩) 8, labelled (.constant "TITLE" ⟨9, none⟩) 9]

/-- The label of the class is stored before the first diagnostic, the label behind it is not. -/
theorem unreadableLabels_cut :
    ∃ continued aborted first last,
      goingOn.run "Forms.php" unreadableLabels .empty = (none, continued) ∧
      continued.result.diagnostics = [first, last] ∧ continued.result.messages = 2 ∧
      ({} : Extractor).run "Forms.php" unreadableLabels .empty = (some (.unreadable first), aborted) ∧
      first = .unreadable "Forms.php" 7 "Variable" ∧
      aborted.catalogue.messages
        = [{ id := "Name", domain := some "person", places := [⟨"Forms.php", 3⟩] }] := by
  have pair : Counterparts goingOn {} := ⟨rfl, rfl, rfl, rfl, rfl⟩
  have possible : goingOn.Visits unreadableLabels := ⟨by decide +kernel, by decide +kernel⟩
  obtain ⟨continued, run, -, cut⟩ :=
    run_strict_cut_at_first_diagnostic pair possible "Forms.php" .empty
  have noted : continued.result.diagnostics
      = [.unreadable "Forms.php" 7 "Variable", .unreadable "Forms.php" 9 "ConstFetch"] := by
    rw [← congrArg (·.2.result.diagnostics) run]
    decide +kernel
  have messages : continued.result.messages = 2 := by
    rw [← congrArg (·.2.result.messages) run]
    decide +kernel
  obtain ⟨moment, aborted, -, abort, -⟩ := cut _ _ noted
  refine ⟨continued, aborted, _, _, run, noted, messages, abort, rfl, ?_⟩
  rw [← congrArg (·.2.catalogue.messages) abort]
  decide +kernel

end Extractor

end FormHarvest
