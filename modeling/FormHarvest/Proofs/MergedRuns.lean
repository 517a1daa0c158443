import FormHarvest.Proofs.FileReadings
import FormHarvest.Proofs.WrittenGroups

namespace FormHarvest

namespace Run

/-- What a file does to a run that nothing stops. -/
structure Takes (extractor : Extractor) (path : Path) (reading : FileReading) (before after : Run) : Prop where
  system : after.system = before.system
  running : after.stopRequested = false
  catalogue : after.catalogue = reading.mergedInto extractor before.catalogue
  report : before.report.Gains after.report path.text (reading.summary extractor)

variable {request : RunRequest} {run : Run} {progress : Progress}

theorem extractSource_takes (run : Run) (goesOn : request.settings.extractor.effectivePolicy = .goOn)
    (unstopped : request.stop = none) (running : run.stopRequested = false)
    (new : progress.path.text ∉ run.report.files.map Prod.fst) {unit : SourceUnit} {source : String}
    {log : List LogRecord}
    (parsed : parseSource progress.path.text source request.settings.maxNesting = .ok (unit, log))
    (shallow : Node.height unit.nodes ≤ request.settings.extractor.maxDepth) :
    ∃ after, run.extractSource request progress source = .ok after ∧
      Takes request.settings.extractor progress.path (.parsed unit) run after := by
  obtain ⟨samePath, unitless⟩ := parseSource_unitless parsed
  have visits : request.settings.extractor.Visits unit.nodes := ⟨shallow, unitless⟩
  have completes := Extractor.completes goesOn visits
  obtain ⟨extraction, extracted, found, merged⟩ := Extractor.run_eq_merge goesOn visits run.catalogue
  have always : run.visits? request progress.current = none := by simp [visits?, running, unstopped]
  refine ⟨(run.logged log).takeResult progress.path extraction, ?_, rfl, ?_, merged, ?_⟩
  · rw [samePath] at extracted
    simp only [extractSource, parsed, always, extracted]
  · simp [takeResult, logged, found, completes.complete, running]
  · have atPath := completes.path.trans samePath
    have gains := Report.gains_addResult (atPath ▸ new) completes.complete (completes.path ▸ completes.about)
    rw [atPath] at gains
    change run.report.Gains (run.report.addResult extraction.result) progress.path.text _
    rw [found]
    exact gains

theorem heed_of_unstopped (unstopped : request.stop = none) (run : Run) (place : StopRequest) :
    run.heed request place = run := by
  simp [heed, unstopped]

/-- Each file that can be handled is taken for itself. -/
theorem extractFile_takes (goesOn : request.settings.extractor.effectivePolicy = .goOn)
    (unstopped : request.stop = none) (running : run.stopRequested = false)
    (new : progress.path.text ∉ run.report.files.map Prod.fst) {reading : FileReading}
    (reads : run.system.Reads request progress.path reading)
    (handled : reading.isHandled request.settings.extractor = true) :
    ∃ after, run.extractFile request progress = .ok after ∧
      Takes request.settings.extractor progress.path reading run after := by
  have announced : run.announce request progress = { run with progress := run.progress ++ [progress] } :=
    heed_of_unstopped unstopped _ _
  rw [extractFile, if_neg (by simp [running]), announced]
  dsimp only
  cases reads with
  | unreadable read refused =>
    rw [read]
    exact ⟨_, if_pos refused, rfl, running, rfl, Report.gains_addSkipped new _ _⟩
  | unparsable read parsed =>
    rw [read]
    simp only [extractSource, parsed]
    exact ⟨_, rfl, rfl, running, rfl, Report.gains_addSkipped new _ _⟩
  | parsed read parsed =>
    rw [read]
    have shallow := of_decide_eq_true handled
    obtain ⟨after, taken, takes⟩ := extractSource_takes { run with progress := run.progress ++ [progress] } goesOn
      unstopped running new parsed shallow
    exact ⟨after, taken, takes.system, takes.running, takes.catalogue, takes.report⟩
  | faulty fault => cases handled

/-- A run that has gone through files and goes on. -/
structure IsBehind (request : RunRequest) (system : FileSystem) (paths : List Path) (run : Run) : Prop where
  sameSystem : run.system = system
  running : run.stopRequested = false
  adds : AddsUp request system paths run.catalogue run.report

variable {system : FileSystem} {paths : List Path}

theorem takeFile_isBehind (goesOn : request.settings.extractor.effectivePolicy = .goOn)
    (unstopped : request.stop = none) (behind : run.IsBehind request system paths)
    (new : progress.path.text ∉ paths.map Path.text)
    (handled : (system.reading request progress.path).isHandled request.settings.extractor = true) :
    ∃ after, run.takeFile request progress = .ok after ∧
      after.IsBehind request system (paths ++ [progress.path]) := by
  obtain ⟨rfl, running, adds⟩ := behind
  have notReported : progress.path.text ∉ run.report.files.map Prod.fst := by
    rw [adds.files, List.map_map]
    exact new
  have reads : run.system.Reads request progress.path _ := run.system.reads_reading progress.path
  obtain ⟨after, taken, takes⟩ := extractFile_takes goesOn unstopped running notReported reads handled
  refine ⟨after, ?_, takes.system, takes.running, ?_⟩
  · rw [takeFile, taken]
    exact congrArg Except.ok (heed_of_unstopped unstopped after _)
  rw [takes.catalogue]
  exact adds.snoc (fun unit parsed => FileSystem.completes_of_reading goesOn parsed handled) takes.report

/-- A run goes through all files that can be handled. -/
theorem extractAll_isBehind (goesOn : request.settings.extractor.effectivePolicy = .goOn)
    (unstopped : request.stop = none) (atStart : run.IsBehind request system [])
    (distinct : (paths.map Path.text).Nodup)
    (handled : ∀ path ∈ paths, (system.reading request path).isHandled request.settings.extractor = true) :
    ∃ after, run.extractAll request paths = .ok after ∧
      after.IsBehind request system paths := by
  let places : List Progress := paths.zipIdx.map fun entry => ⟨entry.2 + 1, paths.length, entry.1⟩
  have pathsOfPlaces : places.map Progress.path = paths := by simp [places, Function.comp_def]
  obtain ⟨after, ran, behind⟩ : ∃ after, places.foldlM (takeFile request) run = .ok after ∧
      after.IsBehind request system (places.map Progress.path) := by
    refine foldlM_eq_ok_of_prefixes (fun done => IsBehind request system (done.map Progress.path))
      (fun earlier place later whole state behind => ?_) atStart
    have parts : paths = earlier.map Progress.path ++ place.path :: later.map Progress.path := by
      rw [← pathsOfPlaces, whole, List.map_append, List.map_cons]
    rw [parts, List.map_append, List.map_cons] at distinct
    have new : place.path.text ∉ (earlier.map Progress.path).map Path.text := fun known =>
      (List.nodup_append.mp distinct).2.2 _ known _ List.mem_cons_self rfl
    have isHandled := handled place.path (by simp [parts])
    rw [List.map_append]
    exact takeFile_isBehind goesOn unstopped behind new isHandled
  rw [pathsOfPlaces] at behind
  rw [extractAll, heed_of_unstopped unstopped]
  refine ⟨after, bind_eq_ok_iff.mpr ⟨after, ran, ?_⟩, behind⟩
  rw [if_neg (by simp [behind.running])]
  rfl

/-- What holds of the catalogue and the report of the run that something leaves, even where it ends the
run. -/
def Leaves {α : Type} (holds : Catalogue → Report → Prop) (left : α → Run) : Except (RunOutcome × Run) α → Prop
  | .ok value => holds (left value).catalogue (left value).report
  | .error (_, run) => holds run.catalogue run.report

section Saving

variable {holds : Catalogue → Report → Prop} {α β : Type}

theorem Leaves.bind {left : α → Run} {next : β → Run} {first : Except (RunOutcome × Run) α}
    {second : α → Except (RunOutcome × Run) β} (leaves : Leaves holds left first)
    (behind : ∀ value, holds (left value).catalogue (left value).report → Leaves holds next (second value)) :
    Leaves holds next (first >>= second) := by
  cases first with
  | ok value => exact behind value leaves
  | error ended => exact leaves

theorem Leaves.foldlM {left : α → Run} {step : α → β → Except (RunOutcome × Run) α}
    (steps : ∀ state part, holds (left state).catalogue (left state).report → Leaves holds left (step state part))
    (parts : List β) {start : α} (atStart : holds (left start).catalogue (left start).report) :
    Leaves holds left (parts.foldlM step start) := by
  induction parts generalizing start with
  | nil => exact atStart
  | cons first rest ih =>
    rw [List.foldlM_cons]
    exact (steps start first atStart).bind fun state kept => ih kept

theorem leaves_needing (kept : holds run.catalogue run.report) (value : Except ValueFault α) :
    Leaves holds (fun _ => run) (run.needing value) := by
  cases value <;> exact kept

theorem leaves_saveFile (kept : holds run.catalogue run.report) (done : List Path) (file : Path × String) :
    Leaves holds id (saveFile done run file) := by
  obtain ⟨path, text⟩ := file
  unfold saveFile
  dsimp only
  rcases (FileAction.writeWithFolders path text.toUTF8).run run.system with ⟨ended, system⟩
  cases ended with
  | ok => exact kept
  | error fault =>
    dsimp only
    split <;> exact kept

theorem leaves_saveLocale (writer : TranslationWriter) (catalogue : Catalogue) (state : List Path × Run)
    (locale : Json) (kept : holds state.2.catalogue state.2.report) :
    Leaves holds Prod.snd (saveLocale request writer catalogue state locale) :=
  (leaves_needing kept _).bind fun files kept =>
    (Leaves.foldlM (fun _ file kept => leaves_saveFile kept state.1 file) files kept).bind fun _ kept => kept

/-- Writing the translation files changes neither the catalogue nor the report. -/
theorem leaves_saveAll (kept : holds run.catalogue run.report) (catalogue : Catalogue) :
    Leaves holds Prod.snd (run.saveAll request catalogue) := by
  unfold saveAll
  split
  · exact kept
  · exact Leaves.foldlM (leaves_saveLocale _ catalogue) request.settings.locales kept

theorem leaves_scan (kept : holds run.catalogue run.report) : Leaves holds Prod.snd (run.scan request) := by
  unfold scan
  split
  · exact kept
  · split <;> exact kept

end Saving

theorem scan_eq_ok {paths : List Path} {next : Run} (ran : run.scan request = .ok (paths, next)) :
    ∃ found, request.settings.search.run run.system = .ok found ∧ paths = found.paths ∧
      next = run.logged found.log := by
  unfold scan at ran
  split at ran
  · cases ran
  · split at ran <;> cases ran
    exact ⟨_, ‹_›, rfl, rfl⟩

theorem scan_eq_error {ended : RunOutcome × Run} (ran : run.scan request = .error ended) :
    request.settings.foundFiles run.system = [] := by
  unfold scan at ran
  unfold RunSettings.foundFiles
  split at ran
  · rename_i searched
    rw [searched]
    cases request.settings.search.scanned.whole <;> rfl
  · rename_i found searched
    split at ran <;> cases ran
    rename_i nothing
    rw [searched]
    cases request.settings.search.scanned.whole with
    | error fault => rfl
    | ok scanned => exact List.isEmpty_iff.mp nothing

/-- A run leaves what the files that it finds give alone, wherever it ends. -/
theorem leaves_proceed (goesOn : request.settings.extractor.effectivePolicy = .goOn)
    (unstopped : request.stop = none) (atStart : run.IsBehind request system [])
    (named : system.root.isNamed = true)
    (handled : ∀ path ∈ request.settings.foundFiles system,
      (system.reading request path).isHandled request.settings.extractor = true) :
    Leaves (AddsUp request system (request.settings.foundFiles system)) Prod.snd
      (run.proceed request) := by
  obtain ⟨rfl, running, adds⟩ := atStart
  unfold proceed
  extract_lets settings
  cases whole : settings.search.scanned.whole with
  | error fault =>
    have nothing : request.settings.foundFiles run.system = [] := by
      rw [RunSettings.foundFiles, show request.settings.search.scanned.whole = _ from whole]
    rw [nothing]
    exact adds
  | ok scanned =>
    let entered := run.enter .scanning (String.intercalate ", " scanned)
    change Leaves _ _ (entered.scan request >>= _)
    cases scan : entered.scan request with
    | error ended =>
      have nothing := scan_eq_error scan
      have kept : Leaves (AddsUp _ run.system []) Prod.snd (entered.scan request) := leaves_scan adds
      rw [scan] at kept
      change request.settings.foundFiles run.system = [] at nothing
      rw [nothing]
      exact kept
    | ok scanning =>
      obtain ⟨paths, next⟩ := scanning
      obtain ⟨found, searched, rfl, rfl⟩ := scan_eq_ok scan
      change request.settings.search.run run.system = .ok found at searched
      have all : request.settings.foundFiles run.system = found.paths := by
        rw [RunSettings.foundFiles, show request.settings.search.scanned.whole = _ from whole, searched]
      rw [all] at handled ⊢
      let extracting := (entered.logged found.log).enter .extracting s!"{found.paths.length} files"
      have atStart : extracting.IsBehind request run.system [] := ⟨rfl, running, adds⟩
      obtain ⟨after, ran, behind⟩ := extractAll_isBehind goesOn unstopped atStart
        (Search.nodup_texts_of_run named searched) handled
      change Leaves _ _ (extracting.extractAll request found.paths >>= _)
      rw [ran]
      change Leaves _ _ (after.needing settings.domains >>= _)
      refine (leaves_needing behind.adds _).bind fun listed kept => (leaves_needing kept _).bind fun excluded kept => ?_
      extract_lets wanted counted saving
      split
      · exact kept
      · have kept : AddsUp _ _ _ saving.catalogue saving.report := kept
        exact (leaves_saveAll kept _).bind fun _ kept => kept

end Run

namespace Catalogue

theorem foldl_merge (catalogues : List Catalogue) (catalogue : Catalogue) :
    catalogues.foldl merge catalogue = catalogue.addAll (catalogues.flatMap Catalogue.messages) := by
  induction catalogues generalizing catalogue with
  | nil => rfl
  | cons first rest ih => rw [List.foldl_cons, ih, List.flatMap_cons, addAll_append, merge]

/-- Catalogues merged into one hold a message for each key that one of them has. -/
theorem size_foldl_merge (catalogues : List Catalogue) :
    (catalogues.foldl merge .empty).size
      = ((catalogues.flatMap Catalogue.messages).map Message.key).toFinset.card := by
  have sameKeys : (((catalogues.foldl merge .empty).messages.map Message.key)).toFinset
      = ((catalogues.flatMap Catalogue.messages).map Message.key).toFinset := by
    ext key
    rw [foldl_merge, List.mem_toFinset, mem_keys_addAll, List.mem_toFinset]
    simp [empty]
  rw [← sameKeys, List.toFinset_card_of_nodup (Catalogue.distinct _), List.length_map, size]

end Catalogue

namespace RunRequest

variable {request : RunRequest} {system : FileSystem}

/-- What a run leaves is what it comes to, with one more line in its log if it failed. -/
theorem run_of_leaves {holds : Catalogue → Report → Prop}
    (leaves : Run.Leaves holds Prod.snd
      (Run.proceed request { system, report := { locales := request.settings.locales } })) :
    holds (request.run system).2.catalogue (request.run system).2.report := by
  unfold RunRequest.run
  extract_lets start
  cases proceeded : start.proceed request with
  | ok ended =>
    obtain ⟨outcome, run⟩ := ended
    rw [proceeded] at leaves
    cases outcome <;> exact leaves
  | error ended =>
    obtain ⟨outcome, run⟩ := ended
    rw [proceeded] at leaves
    cases outcome <;> exact leaves

/-- A run that is not strict and not stopped is the merge of its files, and a file that cannot be read or parsed
costs nothing but itself. -/
theorem run_merges_files (request : RunRequest) (system : FileSystem) (lenient : request.settings.strict = false)
    (unstopped : request.stop = none) (named : system.root.isNamed = true)
    (handled : ∀ path ∈ request.settings.foundFiles system,
      (system.reading request path).isHandled request.settings.extractor = true) :
    let extractor := request.settings.extractor
    let found := request.settings.foundFiles system
    let run := (request.run system).2
    AddsUp request system found run.catalogue run.report ∧
      (∀ unit ∈ system.units request found, extractor.Completes unit) ∧
      (found.map Path.text).Nodup ∧
      ∃ count : Nat, run.stats.lookup "messages" = some (.int count) ∧
        count = (((system.units request found).flatMap fun unit => (extractor.alone unit).catalogue.messages).map
          Message.key).toFinset.card ∧
        count ≤ run.report.totalExtracted := by
  have goesOn := RunSettings.effectivePolicy_extractor lenient
  have atStart : Run.IsBehind request system []
      { system, report := { locales := request.settings.locales } } := ⟨rfl, rfl, .nothing _⟩
  have adds := run_of_leaves (Run.leaves_proceed goesOn unstopped atStart named handled)
  refine ⟨adds, fun unit member => ?_, ?_, _, rfl, ?_, adds.size⟩
  · obtain ⟨path, member, parsed⟩ := FileSystem.mem_units.mp member
    exact FileSystem.completes_of_reading goesOn parsed (handled path member)
  · exact RunSettings.nodup_texts_foundFiles named
  · rw [adds.merged, Catalogue.size_foldl_merge, List.flatMap_map]

/-- A page that uses one text twice. -/
def personPage : ByteArray := "<?php ['label' => 'Name', 'title' => 'Name'];".toUTF8

/-- A folder with this page and with a link to a page that is lost. -/
def lostDraft : FileSystem where
  root := .folder [("forms", .folder [("Draft.php", .link "Lost.php"), ("Person.php", .file personPage)])]
  current := []

/-- A preview of the texts in that folder. -/
def previewOfForms : RunRequest where
  settings := {
    locales := [], search := { scanned := { texts := ["forms"] } }, domains := .ok none,
    ignoredDomains := .ok [], customFields := [], convention := .current, strict := false,
    outputFolder := .string "out", format := .string "json", sourceLanguage := .string "en",
    withDate := false, withPlaces := false }
  moment := ""
  dryRun := true

namespace LostDraft

/-- The way from a place in the folder system, links followed. -/
def wayOn (here names : List String) : Except FileCause (List String) :=
  FileSystem.wayFrom lostDraft.root .target FileSystem.maxLinks here names

def forms : Path := ⟨"", ["forms"]⟩

def draft : Path := ⟨"", ["forms", "Draft.php"]⟩

def person : Path := ⟨"", ["forms", "Person.php"]⟩

theorem at_forms : lostDraft.root.at? ["forms"]
    = some (.folder [("Draft.php", .link "Lost.php"), ("Person.php", .file personPage)]) := rfl

theorem at_draft : lostDraft.root.at? ["forms", "Draft.php"] = some (.link "Lost.php") := rfl

theorem at_lost : lostDraft.root.at? ["forms", "Lost.php"] = none := rfl

theorem at_person : lostDraft.root.at? ["forms", "Person.php"] = some (.file personPage) := rfl

theorem ofText_link : Path.ofText "Lost.php" = ⟨"", ["Lost.php"]⟩ := by decide

theorem isShort {name : String} (known : name ∈ ["forms", "Draft.php", "Lost.php", "Person.php"]) :
    ¬FileSystem.maxNameSize < name.utf8ByteSize := by
  revert name
  decide

theorem wayOn_forms (names : List String) : wayOn [] ("forms" :: names) = wayOn ["forms"] names := by
  have short := isShort (show "forms" ∈ _ by decide)
  rw [wayOn, wayOn, FileSystem.wayFrom]
  simp [short, at_forms]

theorem wayOn_lost : wayOn ["forms"] ["Lost.php"] = .ok ["forms", "Lost.php"] := by
  have short := isShort (show "Lost.php" ∈ _ by decide)
  simp [wayOn, FileSystem.wayFrom, short, at_lost]

theorem wayOn_draft : wayOn ["forms"] ["Draft.php"] = .ok ["forms", "Lost.php"] := by
  have link : FileSystem.namesOfLink "Lost.php" = ["Lost.php"] := by decide
  have short := isShort (show "Draft.php" ∈ _ by decide)
  have shortTarget := isShort (show "Lost.php" ∈ _ by decide)
  simp [wayOn, FileSystem.wayFrom, FileSystem.maxLinks, link, ofText_link, short, shortTarget, at_draft, at_lost,
    Path.isAbsolute]

theorem wayOn_person : wayOn ["forms"] ["Person.php"] = .ok ["forms", "Person.php"] := by
  have short := isShort (show "Person.php" ∈ _ by decide)
  simp [wayOn, FileSystem.wayFrom, short, at_person]

theorem wayTo_forms {names way : List String}
    (noNul : (Path.text ⟨"", "forms" :: names⟩).toList.contains '\x00' = false)
    (short : (Path.text ⟨"", "forms" :: names⟩).utf8ByteSize < FileSystem.maxPathSize)
    (found : wayOn ["forms"] names = .ok way) : lostDraft.wayTo .target ⟨"", "forms" :: names⟩ = .ok way := by
  have found : FileSystem.wayFrom lostDraft.root .target FileSystem.maxLinks [] ("forms" :: names) = .ok way :=
    (wayOn_forms names).trans found
  simp only [FileSystem.wayTo, noNul, Nat.not_le.mpr short, Path.isAbsolute, show lostDraft.current = [] from rfl]
  rw [if_neg Bool.false_ne_true, if_neg not_false, if_neg (by decide), found]
  rfl

theorem candidates_forms : previewOfForms.settings.search.candidates? lostDraft forms = .ok (some [draft, person]) := by
  have way : lostDraft.wayTo .target forms = .ok ["forms"] :=
    wayTo_forms (by decide) (by decide) (by simp [wayOn, FileSystem.wayFrom])
  have draftIsFile (walked : String) : Search.leadsToFolder lostDraft ["forms", "Draft.php"] walked = false := by
    have found := wayOn_draft
    rw [wayOn] at found
    simp [Search.leadsToFolder, found, at_lost]
  have personIsFile (walked : String) : Search.leadsToFolder lostDraft ["forms", "Person.php"] walked = false := by
    have found := wayOn_person
    rw [wayOn] at found
    simp [Search.leadsToFolder, found, at_person, FileTree.isFolder]
  have sorted : List.Pairwise (fun a b => decide (a ≤ b) = true) ["Draft.php", "Person.php"] := by decide
  have taken : Search.isTaken (Path.text ⟨"", ["forms"]⟩) = true := by decide
  have listed : Search.below previewOfForms.settings.search lostDraft ["forms"] forms forms.text
      (.folder [("Draft.php", .link "Lost.php"), ("Person.php", .file personPage)]) = [draft, person] := by
    simp [Search.below, Search.belowEntries, taken, draftIsFile, personIsFile, List.mergeSort_of_pairwise sorted,
      forms, draft, person, Path.join, Path.isAbsolute]
  simp [Search.candidates?, FileSystem.kind?, way, at_forms, listed, Search.checkFolders, draftIsFile, personIsFile,
    Except.mapError, pure, bind, Except.bind, Except.pure]

theorem realWay_draft : lostDraft.realWay draft = ["forms", "Lost.php"] := by
  simp [FileSystem.realWay, FileSystem.realWayFrom, FileSystem.maxNestedLinks, draft, at_forms, at_draft, at_lost,
    ofText_link, Path.isAbsolute, show lostDraft.current = [] from rfl]

theorem realWay_person : lostDraft.realWay person = ["forms", "Person.php"] := by
  simp [FileSystem.realWay, FileSystem.realWayFrom, person, at_forms, at_person, Path.isAbsolute,
    show lostDraft.current = [] from rfl]

theorem isCircle_forms {name : String} {way : List String} (found : wayOn ["forms"] [name] = .ok way) :
    lostDraft.isCircle ["forms", name] = false := by
  rw [FileSystem.isCircle, show FileSystem.wayFrom _ _ _ _ _ = _ from (wayOn_forms [name]).trans found]

theorem foundFiles_forms : previewOfForms.settings.foundFiles lostDraft = [draft, person] := by
  have atDraft : previewOfForms.settings.search.consider lostDraft {} draft
      = .ok { paths := [draft], places := [["forms", "Lost.php"]] } := by
    have noCircle : lostDraft.isCircle (lostDraft.realWay draft) = false := realWay_draft ▸ isCircle_forms wayOn_lost
    rw [Search.consider_of_new (by decide +kernel) rfl noCircle List.not_mem_nil, realWay_draft]
    rfl
  have atPerson : previewOfForms.settings.search.consider lostDraft
      { paths := [draft], places := [["forms", "Lost.php"]] } person
      = .ok { paths := [draft, person], places := [["forms", "Lost.php"], ["forms", "Person.php"]] } := by
    have noCircle : lostDraft.isCircle (lostDraft.realWay person) = false :=
      realWay_person ▸ isCircle_forms wayOn_person
    rw [Search.consider_of_new (by decide +kernel) rfl noCircle (by simp [realWay_person]), realWay_person]
    rfl
  have entry : Path.ofText "forms" = forms := by decide
  have scanned : previewOfForms.settings.search.scan lostDraft {} "forms"
      = .ok { paths := [draft, person], places := [["forms", "Lost.php"], ["forms", "Person.php"]] } := by
    rw [Search.scan_of_candidates (entry ▸ candidates_forms)]
    exact foldlM_cons_eq_ok_iff.mpr ⟨_, atDraft, foldlM_cons_eq_ok_iff.mpr ⟨_, atPerson, rfl⟩⟩
  have searched : previewOfForms.settings.search.run lostDraft
      = .ok { paths := [draft, person], places := [["forms", "Lost.php"], ["forms", "Person.php"]] } :=
    bind_eq_ok_iff.mpr ⟨_, foldlM_cons_eq_ok_iff.mpr ⟨_, scanned, rfl⟩, rfl⟩
  rw [RunSettings.foundFiles, searched]
  rfl

theorem reading_draft : lostDraft.reading previewOfForms draft = .unreadable := by
  have way : lostDraft.wayTo .target draft = .ok ["forms", "Lost.php"] :=
    wayTo_forms (by decide) (by decide) wayOn_draft
  have unread : lostDraft.read draft = .error (.refused .notFound draft.text none) := by
    rw [FileSystem.read, way]
    rfl
  rw [FileSystem.reading, unread]
  rfl

theorem reading_person : lostDraft.reading previewOfForms person
    = .ofSource "forms/Person.php" (decodeSource personPage.toList) maxNesting := by
  have way : lostDraft.wayTo .target person = .ok ["forms", "Person.php"] :=
    wayTo_forms (by decide) (by decide) wayOn_person
  have read : lostDraft.read person = .ok personPage := by
    rw [FileSystem.read, way]
    rfl
  have text : person.text = "forms/Person.php" := by decide
  rw [FileSystem.reading, read, text]
  rfl

theorem handled_forms : ∀ path ∈ [draft, person],
    (lostDraft.reading previewOfForms path).isHandled previewOfForms.settings.extractor = true := by
  simp only [List.forall_mem_cons, reading_draft, reading_person]
  exact ⟨rfl, by decide +kernel, List.forall_mem_nil _⟩

theorem units_forms : lostDraft.units previewOfForms [draft, person]
    = (FileReading.ofSource "forms/Person.php" (decodeSource personPage.toList) maxNesting).unit?.toList := by
  simp only [FileSystem.units, List.filterMap_cons, reading_draft, reading_person]
  cases (FileReading.ofSource "forms/Person.php" (decodeSource personPage.toList) maxNesting).unit? <;> rfl

end LostDraft

open LostDraft in
/-- The lost page is skipped, and the other one gives the message that it gives alone. -/
theorem previewOfForms_merges :
    let run := (previewOfForms.run lostDraft).2
    run.report.files.map (fun (path, summary) => (path, summary.extracted, summary.skipped))
        = [("forms/Draft.php", 0, 1), ("forms/Person.php", 2, 0)] ∧
      run.report.totalExtracted = 2 ∧
      run.catalogue.messages.map (fun message => (message.id, message.domain)) = [("Name", none)] ∧
      run.stats.lookup "messages" = some (.int 1) := by
  have handled : ∀ path ∈ previewOfForms.settings.foundFiles lostDraft,
      (lostDraft.reading previewOfForms path).isHandled previewOfForms.settings.extractor = true :=
    foundFiles_forms ▸ handled_forms
  obtain ⟨adds, -, -, count, counted, isCard, -⟩ :=
    run_merges_files previewOfForms lostDraft rfl rfl (by decide) handled
  rw [foundFiles_forms] at adds isCard
  refine ⟨?_, ?_, ?_, ?_⟩
  · rw [adds.files]
    simp only [List.map_cons, List.map_nil, reading_draft, reading_person]
    decide +kernel
  · rw [adds.totalExtracted, units_forms]
    decide +kernel
  · rw [adds.merged, units_forms]
    decide +kernel
  · rw [counted, isCard, units_forms]
    congr 2
    decide +kernel

end RunRequest

end FormHarvest
