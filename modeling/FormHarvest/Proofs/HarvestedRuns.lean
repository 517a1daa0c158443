import FormHarvest.Proofs.MergedRuns
import FormHarvest.Proofs.NotedDiagnostics

namespace FormHarvest

namespace Extraction

section GivingUp

variable {extractor : Extractor} {before after : Extraction}

/-- As long as an extractor goes on that gives up at a value that cannot be read, it has noted none. -/
theorem readText_notesNothing (givesUp : extractor.effectivePolicy = .abort) {text : TextItem}
    (run : readText extractor before text = .ok after) :
    after.result.diagnostics = before.result.diagnostics := by
  unfold readText at run
  split at run
  · cases run
  obtain ⟨item, domain⟩ := text
  rcases reading : Finding.ofItem before.result.path item with ⟨finding, records⟩
  simp only [reading] at run
  cases finding with
  | nothing =>
    cases run
    rfl
  | entry entry => cases domain <;> cases run <;> rfl
  | diagnostic diagnostic =>
    simp only [givesUp] at run
    cases run

theorem visit_notesNothing (givesUp : extractor.effectivePolicy = .abort) {node : Node}
    (run : visit extractor before node = .ok after) :
    after.result.diagnostics = before.result.diagnostics := by
  cases node with
  | array items mark =>
    have kept : ∀ text ∈ textItems extractor.convention extractor.isField items, ∀ state next : Extraction,
        state.result.diagnostics = before.result.diagnostics → readText extractor state text = .ok next →
        next.result.diagnostics = before.result.diagnostics :=
      fun _ _ _ _ same read => (readText_notesNothing givesUp read).trans same
    exact foldlM_keeps kept rfl run
  | sourceUnit path nodes => cases run
  | _ => exact (visit_notes run).trans (List.append_nil _)

theorem step_notesNothing (givesUp : extractor.effectivePolicy = .abort) {station : Waypoint}
    (run : step extractor before station = .ok after) :
    after.result.diagnostics = before.result.diagnostics := by
  cases station with
  | visit depth node =>
    simp only [step] at run
    split at run
    · cases run
    split at run
    · cases run
    rename_i middle more
    rw [visit_notesNothing givesUp run, takeVisit?_result more]
  | leave => exact (step_notes run).trans (List.append_nil _)

end GivingUp

end Extraction

namespace Extractor

/-- In a file that such an extractor has gone through there is no value that cannot be read. -/
theorem diagnostics_eq_nil_of_complete {extractor : Extractor} (givesUp : extractor.effectivePolicy = .abort)
    {path : String} {nodes : List Node} {catalogue : Catalogue} {visits : Option Nat} {extraction : Extraction}
    (run : extractor.run path nodes catalogue visits = (none, extraction))
    (complete : extraction.result.complete = true) :
    (walk nodes).flatMap (extractor.diagnosticsAt path) = [] := by
  obtain ⟨last, way, -⟩ := exists_route_of_complete run complete
  have nothing : last.result.diagnostics = [] := by
    have kept : ∀ station ∈ routeThrough nodes, ∀ state next : Extraction, state.result.diagnostics = [] →
        Extraction.step extractor state station = .ok next → next.result.diagnostics = [] :=
      fun _ _ _ _ same taken => (Extraction.step_notesNothing givesUp taken).trans same
    exact foldlM_keeps kept rfl way
  rw [Extraction.foldlM_step_notes way, List.nil_append] at nothing
  rwa [← flatMap_diagnosticsOn_route extractor path 0 nodes]

end Extractor

namespace FileReading

/-- What cannot be read in a file that is parsed. -/
def diagnostics (extractor : Extractor) : FileReading → List Diagnostic
  | parsed unit => (walk unit.nodes).flatMap (extractor.diagnosticsAt unit.path)
  | _ => []

end FileReading

theorem RunSettings.effectivePolicy_extractor_of_strict {settings : RunSettings} (strict : settings.strict = true) :
    settings.extractor.effectivePolicy = .abort := by
  simp [extractor, Extractor.addFields, Extractor.effectivePolicy, strict]

namespace Run

/-- The system is as before, and no written files are told of. -/
def WritesNothing (system : FileSystem) (ended : RunOutcome × Run) : Prop :=
  ended.2.system = system ∧ ended.1.paths? = none

/-- How something ends that writes nothing: with a value for which something holds, or with the end of the
run. -/
def EndsUnwritten {α : Type} (system : FileSystem) (holds : α → Prop) : Except (RunOutcome × Run) α → Prop
  | .ok value => holds value
  | .error ended => WritesNothing system ended

section Unwritten

variable {α β : Type} {system : FileSystem} {holds : α → Prop}

theorem EndsUnwritten.bind {next : β → Prop} {first : Except (RunOutcome × Run) α}
    {second : α → Except (RunOutcome × Run) β} (ends : EndsUnwritten system holds first)
    (behind : ∀ value, holds value → EndsUnwritten system next (second value)) :
    EndsUnwritten system next (first >>= second) := by
  cases first with
  | ok value => exact behind value ends
  | error ended => exact ends

theorem endsUnwritten_needing {run : Run} (same : run.system = system) (value : Except ValueFault α) :
    EndsUnwritten system (fun _ => True) (run.needing value) := by
  cases value with
  | ok value => trivial
  | error fault => exact ⟨same, rfl⟩

end Unwritten

variable {request : RunRequest} {run : Run}

@[simp] theorem heed_system (run : Run) (place : StopRequest) : (run.heed request place).system = run.system := by
  unfold heed
  split <;> rfl

/-- A stop that was requested stays requested. -/
theorem running_of_heed {place : StopRequest} (running : (run.heed request place).stopRequested = false) :
    run.stopRequested = false := by
  unfold heed at running
  split at running
  · cases running
  · exact running

/-- A run that is to stop does not come to its next file. -/
theorem takeFile_of_stopRequested (requested : run.stopRequested = true) (place : Progress) :
    run.takeFile request place = .error (.stopped, run) := by
  rw [takeFile, extractFile, if_pos requested]
  rfl

theorem extractAll_of_stopRequested (requested : (run.heed request (.behind 0)).stopRequested = true)
    (paths : List Path) : run.extractAll request paths = .error (.stopped, run.heed request (.behind 0)) := by
  unfold extractAll
  extract_lets places
  cases places with
  | nil =>
    change (if _ then _ else _ : Except (RunOutcome × Run) Run) = _
    rw [if_pos requested]
    rfl
  | cons place rest =>
    rw [List.foldlM_cons, takeFile_of_stopRequested requested]
    rfl

/-- What files do to a run that goes on behind them. -/
structure GoesThrough (request : RunRequest) (paths : List Path) (before after : Run) : Prop where
  system : after.system = before.system
  running : after.stopRequested = false → before.stopRequested = false
  readable : after.stopRequested = false → request.settings.strict = true →
    ∀ path ∈ paths, (before.system.reading request path).diagnostics request.settings.extractor = []

theorem GoesThrough.refl (request : RunRequest) (run : Run) : GoesThrough request [] run run :=
  ⟨rfl, id, fun _ _ => List.forall_mem_nil _⟩

theorem GoesThrough.trans {first later : List Path} {before middle after : Run}
    (one : GoesThrough request first before middle) (two : GoesThrough request later middle after) :
    GoesThrough request (first ++ later) before after where
  system := two.system.trans one.system
  running running := one.running (two.running running)
  readable running strict := List.forall_mem_append.mpr
    ⟨one.readable (two.running running) strict, one.system ▸ two.readable running strict⟩

theorem goesThrough_heed (request : RunRequest) (run : Run) (place : StopRequest) :
    GoesThrough request [] run (run.heed request place) :=
  ⟨heed_system run place, running_of_heed, fun _ _ => List.forall_mem_nil _⟩

theorem goesThrough_announce (request : RunRequest) (run : Run) (place : Progress) :
    GoesThrough request [] run (run.announce request place) :=
  have heeds : GoesThrough request [] { run with progress := run.progress ++ [place] } _ := goesThrough_heed _ _ _
  ⟨heeds.system, heeds.running, heeds.readable⟩

theorem endsUnwritten_extractSource (request : RunRequest) (run : Run) (place : Progress) {content : ByteArray}
    (read : run.system.read place.path = .ok content) :
    EndsUnwritten run.system (GoesThrough request [place.path] run)
      (run.extractSource request place (decodeSource content.toList request.detector)) := by
  have reading : run.system.reading request place.path = .ofSource place.path.text
      (decodeSource content.toList request.detector) request.settings.maxNesting := by
    rw [FileSystem.reading, read]
  unfold extractSource
  dsimp only
  split
  · exact ⟨rfl, rfl⟩
  · rename_i parsed
    refine ⟨rfl, id, fun _ _ => List.forall_mem_singleton.mpr ?_⟩
    rw [reading, FileReading.ofSource, parsed]
    rfl
  · rename_i unit log parsed
    rcases extracted : request.settings.extractor.run place.path.text unit.nodes run.catalogue
      (run.visits? request place.current) with ⟨interruption, extraction⟩
    cases interruption with
    | some interruption => cases interruption <;> exact ⟨rfl, rfl⟩
    | none =>
      have stays (running : (run.stopRequested || !extraction.result.complete && !run.stopRequested) = false) :
          run.stopRequested = false ∧ extraction.result.complete = true := by
        cases stopped : run.stopRequested <;> cases complete : extraction.result.complete <;> simp_all
      refine ⟨rfl, fun running => (stays running).1, fun running strict => List.forall_mem_singleton.mpr ?_⟩
      rw [reading, FileReading.ofSource, parsed]
      have samePath := (parseSource_unitless parsed).1
      rw [← samePath] at extracted
      exact Extractor.diagnostics_eq_nil_of_complete
        (RunSettings.effectivePolicy_extractor_of_strict strict) extracted (stays running).2

theorem endsUnwritten_extractFile (request : RunRequest) (run : Run) (place : Progress) :
    EndsUnwritten run.system (GoesThrough request [place.path] run) (run.extractFile request place) := by
  unfold extractFile
  split
  · exact ⟨rfl, rfl⟩
  have announces : GoesThrough request [] run (run.announce request place) := goesThrough_announce request run place
  extract_lets announced
  cases read : announced.system.read place.path with
  | ok content =>
    have ends := endsUnwritten_extractSource request announced place read
    dsimp only
    cases extracted : announced.extractSource request place (decodeSource content.toList request.detector) with
    | error ended =>
      rw [extracted] at ends
      exact ⟨ends.1.trans announces.system, ends.2⟩
    | ok after =>
      rw [extracted] at ends
      exact announces.trans ends
  | error fault =>
    dsimp only
    split
    · rename_i refused
      have unreadable : run.system.reading request place.path = .unreadable := by
        rw [FileSystem.reading, ← announces.system, read]
        exact if_pos refused
      refine ⟨announces.system, announces.running, fun _ _ => List.forall_mem_singleton.mpr ?_⟩
      rw [unreadable]
      rfl
    · exact ⟨announces.system, rfl⟩

theorem endsUnwritten_takeFile (request : RunRequest) (run : Run) (place : Progress) :
    EndsUnwritten run.system (GoesThrough request [place.path] run) (run.takeFile request place) :=
  (endsUnwritten_extractFile request run place).bind fun after goesOn => goesOn.trans (goesThrough_heed request after _)

/-- A run that is not stopped on its way through files has written nothing, and has met no value that cannot be read
if it is strict. -/
theorem endsUnwritten_takeFiles (request : RunRequest) (run : Run) (places : List Progress) :
    EndsUnwritten run.system (GoesThrough request (places.map Progress.path) run)
      (places.foldlM (takeFile request) run) := by
  -- a stop that is requested at one file is still requested behind the others: that none is at the end says it of all
  induction places generalizing run with
  | nil => exact .refl request run
  | cons place rest ih =>
    rw [List.foldlM_cons]
    refine (endsUnwritten_takeFile request run place).bind fun middle first => ?_
    have later := ih middle
    rw [first.system] at later
    cases taken : rest.foldlM (takeFile request) middle with
    | error ended =>
      rw [taken] at later
      exact later
    | ok after =>
      rw [taken] at later
      exact first.trans later

theorem endsUnwritten_extractAll (request : RunRequest) (run : Run) (paths : List Path) :
    EndsUnwritten run.system (fun after => after.stopRequested = false ∧ GoesThrough request paths run after)
      (run.extractAll request paths) := by
  have heeded := goesThrough_heed request run (.behind 0)
  unfold extractAll
  extract_lets places
  have pathsOfPlaces : places.map Progress.path = paths := by simp [places, Function.comp_def]
  have ends := endsUnwritten_takeFiles request (run.heed request (.behind 0)) places
  rw [heeded.system, pathsOfPlaces] at ends
  refine ends.bind fun after goesThrough => ?_
  split
  · exact ⟨goesThrough.system.trans heeded.system, rfl⟩
  · rename_i running
    exact ⟨Bool.eq_false_iff.mpr running, heeded.trans goesThrough⟩

variable (request) in
/-- The messages of a run that are wanted, and where it stands when they are known. -/
def select (run : Run) : Except (RunOutcome × Run) (Catalogue × Run) := do
  let listed ← run.needing request.settings.domains
  let excluded ← run.needing request.settings.ignoredDomains
  let wanted := run.catalogue.restrict listed excluded
  return (wanted, run.logged [Catalogue.restrictLog run.catalogue wanted])

variable (request) in
/-- What a run does before anything is written: it finds files, extracts their messages and selects those that are
wanted. -/
def harvest (run : Run) : Except (RunOutcome × Run) (Catalogue × Run) := do
  let scanned ← run.needing request.settings.search.scanned.whole
  let run := run.enter .scanning (String.intercalate ", " scanned)
  let (paths, run) ← run.scan request
  let run := run.enter .extracting s!"{paths.length} files"
  let run ← run.extractAll request paths
  run.select request

variable (request) in
/-- What it does with them. -/
def deliver (run : Run) (wanted : Catalogue) : Except (RunOutcome × Run) (RunOutcome × Run) := do
  if request.dryRun then
    return (.previewed wanted.size, run.enter .completed "dry run, nothing written")
  let (saved, run) ← (run.enter .saving request.settings.outputFolder.shown).saveAll request wanted
  return (.saved wanted.size saved, run.enter .completed s!"{saved.length} files written")

theorem proceed_eq (request : RunRequest) (run : Run) :
    run.proceed request = run.harvest request >>= fun (wanted, run) => run.deliver request wanted := by
  simp only [proceed, harvest, select, bind_assoc, pure_bind]
  rfl

/-- Without files a run ends before any is extracted, and with files it comes to extract them all. -/
theorem harvest_cases (request : RunRequest) (run : Run) :
    (request.settings.foundFiles run.system = [] ∧
      ∃ ended, run.harvest request = .error ended ∧ WritesNothing run.system ended) ∨
    (request.settings.foundFiles run.system ≠ [] ∧
      ∃ log, run.harvest request
        = ({ run with stage := .extracting, log } : Run).extractAll request (request.settings.foundFiles run.system)
          >>= select request) := by
  unfold harvest RunSettings.foundFiles
  cases whole : request.settings.search.scanned.whole with
  | error fault => exact .inl ⟨rfl, _, rfl, rfl, rfl⟩
  | ok scanned =>
    let entered := run.enter .scanning (String.intercalate ", " scanned)
    change (_ ∧ ∃ ended, entered.scan request >>= _ = _ ∧ _) ∨ (_ ∧ ∃ log, entered.scan request >>= _ = _)
    unfold scan
    cases searched : request.settings.search.run run.system with
    | error fault =>
      rw [show request.settings.search.run entered.system = _ from searched]
      exact .inl ⟨rfl, _, rfl, rfl, rfl⟩
    | ok found =>
      rw [show request.settings.search.run entered.system = _ from searched]
      dsimp only
      cases found.paths with
      | nil => exact .inl ⟨rfl, _, rfl, rfl, rfl⟩
      | cons first others => exact .inr ⟨List.cons_ne_nil first others, _, rfl⟩

/-- A run that has come to its messages has found files, was not stopped and has written nothing; if it is strict, it
can read all of them. -/
structure Harvests (request : RunRequest) (before : Run) (after : Run) : Prop where
  system : after.system = before.system
  running : after.stopRequested = false
  found : request.settings.foundFiles before.system ≠ []
  readable : request.settings.strict = true → ∀ path ∈ request.settings.foundFiles before.system,
    (before.system.reading request path).diagnostics request.settings.extractor = []

theorem endsUnwritten_harvest (request : RunRequest) (run : Run) :
    EndsUnwritten run.system (fun harvested => Harvests request run harvested.2) (run.harvest request) := by
  rcases harvest_cases request run with ⟨-, ended, early, unwritten⟩ | ⟨found, log, harvest⟩
  · rw [early]
    exact unwritten
  · rw [harvest]
    have extracts := endsUnwritten_extractAll request { run with stage := .extracting, log }
      (request.settings.foundFiles run.system)
    refine extracts.bind fun after ⟨running, goesThrough⟩ => ?_
    have same : after.system = run.system := goesThrough.system
    refine (endsUnwritten_needing same _).bind fun listed _ => (endsUnwritten_needing same _).bind fun excluded _ => ?_
    exact ⟨same, running, found, goesThrough.readable running⟩

end Run

namespace RunRequest

/-- Where a run starts. -/
def start (request : RunRequest) (system : FileSystem) : Run :=
  { system, report := { locales := request.settings.locales } }

/-- How a run ends: before anything is written, with a preview, or as the messages are saved. -/
inductive Ends (request : RunRequest) (system : FileSystem) : RunOutcome × Run → Prop
  | early {ended : RunOutcome × Run} (harvest : (request.start system).harvest request = .error ended)
      (unwritten : Run.WritesNothing system ended) : Ends request system ended
  | preview {wanted : Catalogue} {harvested : Run}
      (harvest : (request.start system).harvest request = .ok (wanted, harvested))
      (harvests : Run.Harvests request (request.start system) harvested) (dry : request.dryRun = true) :
      Ends request system (.previewed wanted.size, harvested.enter .completed "dry run, nothing written")
  | saved {wanted : Catalogue} {harvested after : Run} {told : List Path}
      (harvest : (request.start system).harvest request = .ok (wanted, harvested))
      (harvests : Run.Harvests request (request.start system) harvested) (real : request.dryRun = false)
      (saves : (harvested.enter .saving request.settings.outputFolder.shown).saveAll request wanted
        = .ok (told, after)) :
      Ends request system (.saved wanted.size told, after.enter .completed s!"{told.length} files written")
  | unsaved {wanted : Catalogue} {harvested : Run} {ended : RunOutcome × Run}
      (harvest : (request.start system).harvest request = .ok (wanted, harvested))
      (harvests : Run.Harvests request (request.start system) harvested) (real : request.dryRun = false)
      (fails : (harvested.enter .saving request.settings.outputFolder.shown).saveAll request wanted = .error ended) :
      Ends request system ended

theorem ends_proceed (request : RunRequest) (system : FileSystem) {ended : RunOutcome × Run}
    (proceeded : (request.start system).proceed request = .ok ended ∨
      (request.start system).proceed request = .error ended) :
    request.Ends system ended := by
  have harvests := Run.endsUnwritten_harvest request (request.start system)
  rw [Run.proceed_eq] at proceeded
  cases harvest : (request.start system).harvest request with
  | error early =>
    rw [harvest] at proceeded harvests
    rcases proceeded with proceeded | proceeded <;> cases proceeded
    exact .early harvest harvests
  | ok harvested =>
    obtain ⟨wanted, harvested⟩ := harvested
    rw [harvest] at proceeded harvests
    change harvested.deliver request wanted = _ ∨ harvested.deliver request wanted = _ at proceeded
    unfold Run.deliver at proceeded
    split at proceeded
    · rename_i dry
      rcases proceeded with proceeded | proceeded <;> cases proceeded
      exact .preview harvest harvests dry
    · rename_i real
      have real : request.dryRun = false := Bool.eq_false_iff.mpr real
      cases saves : (harvested.enter .saving request.settings.outputFolder.shown).saveAll request wanted with
      | ok saved =>
        rw [saves] at proceeded
        rcases proceeded with proceeded | proceeded <;> cases proceeded
        exact .saved harvest harvests real saves
      | error failed =>
        rw [saves] at proceeded
        rcases proceeded with proceeded | proceeded <;> cases proceeded
        exact .unsaved harvest harvests real saves

/-- What a run leaves: one that fails says so at the end of its log. -/
def closed : RunOutcome × Run → RunOutcome × Run
  | (.failed fault, run) => (.failed fault, run.logged [⟨.error, .pipeline, "Pipeline error"⟩])
  | ended => ended

theorem exists_closed_eq (ended : RunOutcome × Run) : ∃ records, closed ended = (ended.1, ended.2.logged records) := by
  obtain ⟨outcome, run⟩ := ended
  have unlogged : run = run.logged [] := by simp [Run.logged]
  cases outcome with
  | failed fault => exact ⟨_, rfl⟩
  | _ => exact ⟨[], Prod.ext rfl unlogged⟩

theorem run_eq_closed {request : RunRequest} {system : FileSystem} {ended : RunOutcome × Run}
    (proceeded : (request.start system).proceed request = .ok ended ∨
      (request.start system).proceed request = .error ended) :
    request.run system = closed ended := by
  rw [start] at proceeded
  unfold RunRequest.run
  dsimp only
  rcases proceeded with proceeded | proceeded <;> rw [proceeded] <;> obtain ⟨outcome, run⟩ := ended <;>
    cases outcome <;> rfl

theorem exists_run_eq (request : RunRequest) (system : FileSystem) :
    ∃ ended records, request.Ends system ended ∧ request.run system = (ended.1, ended.2.logged records) := by
  obtain ⟨ended, proceeded⟩ : ∃ ended, (request.start system).proceed request = .ok ended ∨
      (request.start system).proceed request = .error ended := by
    cases (request.start system).proceed request with
    | ok ended => exact ⟨ended, .inl rfl⟩
    | error ended => exact ⟨ended, .inr rfl⟩
  obtain ⟨records, closed⟩ := exists_closed_eq ended
  exact ⟨ended, records, ends_proceed request system proceeded, (run_eq_closed proceeded).trans closed⟩

variable {request : RunRequest} {system : FileSystem}

theorem run_of_early (request : RunRequest) {ended : RunOutcome × Run}
    (harvest : (request.start system).harvest request = .error ended) :
    request.run system = closed ended := by
  refine run_eq_closed (.inr ?_)
  rw [Run.proceed_eq, harvest]
  rfl

/-- A run that ends before anything is written ends in the same way if it is dry: only what it does with its messages
depends on that. -/
theorem dry_of_early {ended : RunOutcome × Run} (harvest : (request.start system).harvest request = .error ended) :
    { request with dryRun := true }.run system = request.run system :=
  (run_of_early { request with dryRun := true } harvest).trans (run_of_early request harvest).symm

/-- What is done with the messages decides how a run ends. -/
theorem run_of_deliver (request : RunRequest) {wanted : Catalogue} {harvested : Run} {ended : RunOutcome × Run}
    (harvest : (request.start system).harvest request = .ok (wanted, harvested))
    (delivered : harvested.deliver request wanted = .ok ended) (succeeds : ended.1.isSuccess = true) :
    request.run system = ended := by
  have proceeded : (request.start system).proceed request = .ok ended := by
    rw [Run.proceed_eq, harvest]
    exact delivered
  rw [run_eq_closed (.inl proceeded)]
  obtain ⟨outcome, run⟩ := ended
  cases outcome with
  | failed fault => cases succeeds
  | _ => rfl

/-- A run that has come to its messages ends with a preview of them if it is dry. -/
theorem dry_of_harvest {wanted : Catalogue} {harvested : Run}
    (harvest : (request.start system).harvest request = .ok (wanted, harvested)) :
    { request with dryRun := true }.run system
      = (.previewed wanted.size, harvested.enter .completed "dry run, nothing written") :=
  run_of_deliver { request with dryRun := true } harvest rfl rfl

/-- A run that is not strict and not stopped comes to its messages if it can handle the files that it finds. -/
theorem harvest_of_handled (request : RunRequest) (lenient : request.settings.strict = false)
    (unstopped : request.stop = none) (named : system.root.isNamed = true)
    (found : request.settings.foundFiles system ≠ [])
    (handled : ∀ path ∈ request.settings.foundFiles system,
      (system.reading request path).isHandled request.settings.extractor = true)
    {listed : Option (List String)} {excluded : List String} (domains : request.settings.domains = .ok listed)
    (ignored : request.settings.ignoredDomains = .ok excluded) :
    ∃ (after : Run) (wanted : Catalogue) (harvested : Run),
      (request.start system).harvest request = .ok (wanted, harvested) ∧
      after.IsBehind request system (request.settings.foundFiles system) ∧
      wanted = after.catalogue.restrict listed excluded ∧ harvested.system = system := by
  have goesOn := RunSettings.effectivePolicy_extractor lenient
  have distinct : ((request.settings.foundFiles system).map Path.text).Nodup :=
    RunSettings.nodup_texts_foundFiles named
  rcases Run.harvest_cases request (request.start system) with ⟨nothing, -⟩ | ⟨-, log, harvest⟩
  · exact absurd nothing found
  · let extracting : Run := { request.start system with stage := .extracting, log }
    have atStart : extracting.IsBehind request system [] := ⟨rfl, rfl, .nothing _⟩
    obtain ⟨after, ran, behind⟩ := Run.extractAll_isBehind goesOn unstopped atStart distinct handled
    let wanted := after.catalogue.restrict listed excluded
    let harvested := after.logged [Catalogue.restrictLog after.catalogue wanted]
    refine ⟨after, wanted, harvested, ?_, behind, rfl, behind.sameSystem⟩
    rw [harvest]
    change extracting.extractAll request (request.settings.foundFiles system) >>= Run.select request = _
    rw [ran]
    change after.select request = _
    rw [Run.select, domains, ignored]
    rfl

/-- A stop that is requested before the first file is extracted stops the run. -/
theorem stopped_of_behind_nothing (request : RunRequest) {system : FileSystem} (stop : request.stop = some (.behind 0))
    (found : request.settings.foundFiles system ≠ []) : (request.run system).1 = .stopped := by
  rcases Run.harvest_cases request (request.start system) with ⟨nothing, -⟩ | ⟨-, log, harvest⟩
  · exact absurd nothing found
  · have requested (run : Run) : (run.heed request (.behind 0)).stopRequested = true := by
      rw [Run.heed, if_pos stop]
      rfl
    rw [Run.extractAll_of_stopRequested (requested _)] at harvest
    rw [run_of_early request harvest]
    rfl

end RunRequest

end FormHarvest
