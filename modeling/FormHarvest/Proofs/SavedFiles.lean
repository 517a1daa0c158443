import FormHarvest.Proofs.FileActions
import FormHarvest.Proofs.HarvestedRuns

namespace FormHarvest

/-- Files that are written one after the other, with the folders around them. -/
inductive FileSystem.Writes : FileSystem → List (Path × String) → FileSystem → Prop
  | nothing (system : FileSystem) : Writes system [] system
  | first {before middle after : FileSystem} {path : Path} {text : String} {files : List (Path × String)}
      (written : (FileAction.writeWithFolders path text.toUTF8).run before = (.ok (), middle))
      (rest : Writes middle files after) : Writes before ((path, text) :: files) after

theorem FileSystem.Writes.trans {before middle after : FileSystem} {files others : List (Path × String)}
    (first : before.Writes files middle) (rest : middle.Writes others after) : before.Writes (files ++ others) after := by
  induction first with
  | nothing => exact rest
  | first written _ ih => exact .first written (ih rest)

namespace Run

/-- What is logged about a file that was written. -/
def savedRecord (file : Path × String) : LogRecord := ⟨.info, .output, s!"Saved translation file: {file.1.text}"⟩

/-- What writing files does to a run: they are logged in their order, and nothing else changes. -/
structure Saves (before : Run) (files : List (Path × String)) (after : Run) : Prop where
  writes : before.system.Writes files after.system
  rest : after = { before with system := after.system, log := before.log ++ files.map savedRecord }

variable {request : RunRequest} {run after : Run} {done told : List Path} {file : Path × String}
  {files : List (Path × String)} {path : Path} {fault : FileFault}

theorem Saves.refl (run : Run) : run.Saves [] run := ⟨.nothing _, by rw [List.map_nil, List.append_nil]⟩

theorem Saves.trans {middle : Run} {others : List (Path × String)} (first : run.Saves files middle)
    (rest : middle.Saves others after) : run.Saves (files ++ others) after := by
  refine ⟨first.writes.trans rest.writes, ?_⟩
  rw [rest.rest, first.rest, List.map_append, List.append_assoc]

/-- How saving ends a run: it does not succeed and is not stopped, and only the file system and the log are others
than before. -/
structure FailsSaving (before : Run) (ended : RunOutcome × Run) : Prop where
  isSuccess : ended.1.isSuccess = false
  notStopped : ended.1 ≠ .stopped
  rest : ∃ system log, ended.2 = { before with system, log }

theorem FailsSaving.behind {middle : Run} {ended : RunOutcome × Run} (saves : run.Saves files middle)
    (fails : middle.FailsSaving ended) : run.FailsSaving ended := by
  refine ⟨fails.isSuccess, fails.notStopped, ?_⟩
  obtain ⟨system, log, rest⟩ := fails.rest
  exact ⟨system, log, by rw [rest, saves.rest]⟩

theorem failsSaving_of_value (run : Run) (fault : RunFault) : run.FailsSaving (.failed fault, run) :=
  ⟨rfl, fun same => (nomatch same), _, _, rfl⟩

/-- A file is either written, or the run ends: in a way that tells of a fault of the file, or of one that is not
expected. -/
theorem saveFile_cases (done : List Path) (run : Run) (file : Path × String) :
    (∃ after, saveFile done run file = .ok after ∧ run.Saves [file] after) ∨
      ∃ fault system, (FileAction.writeWithFolders file.1 file.2.toUTF8).run run.system = (.error fault, system) ∧
        saveFile done run file = .error
          (if fault.isRefusal then .unsaved file.1 fault done else .failed (.file fault), { run with system }) := by
  obtain ⟨path, text⟩ := file
  unfold saveFile
  dsimp only
  rcases written : (FileAction.writeWithFolders path text.toUTF8).run run.system with ⟨outcome, system⟩
  cases outcome with
  | ok => exact .inl ⟨_, rfl, .first written (.nothing _), rfl⟩
  | error fault =>
    refine .inr ⟨fault, system, rfl, ?_⟩
    dsimp only
    split <;> rfl

theorem saveFile_eq_ok (saved : saveFile done run file = .ok after) : run.Saves [file] after := by
  rcases saveFile_cases done run file with ⟨next, taken, saves⟩ | ⟨fault, system, -, failed⟩
  · cases saved.symm.trans taken
    exact saves
  · cases saved.symm.trans failed

theorem saveFile_eq_error {ended : RunOutcome × Run} (failed : saveFile done run file = .error ended) :
    run.FailsSaving ended ∧ ∀ path fault told, ended.1 = .unsaved path fault told → told = done ∧ path = file.1 ∧
      (FileAction.writeWithFolders file.1 file.2.toUTF8).run run.system = (.error fault, ended.2.system) := by
  rcases saveFile_cases done run file with ⟨next, taken, -⟩ | ⟨fault, system, written, refused⟩
  · cases failed.symm.trans taken
  · cases failed.symm.trans refused
    dsimp only
    split
    · refine ⟨⟨rfl, fun same => (nomatch same), _, _, rfl⟩, fun path other told same => ?_⟩
      cases same
      exact ⟨rfl, rfl, written⟩
    · exact ⟨⟨rfl, fun same => (nomatch same), _, _, rfl⟩, fun path other told same => nomatch same⟩

theorem saveFiles_eq_ok (saved : files.foldlM (saveFile done) run = .ok after) : run.Saves files after := by
  induction files generalizing run with
  | nil =>
    cases saved
    exact .refl _
  | cons file rest ih =>
    obtain ⟨middle, first, later⟩ := foldlM_cons_eq_ok_iff.mp saved
    exact (saveFile_eq_ok first).trans (ih later)

/-- The files of a language are written up to one that cannot be written. Those before it are not told of. -/
theorem saveFiles_eq_error {ended : RunOutcome × Run} (failed : files.foldlM (saveFile done) run = .error ended) :
    run.FailsSaving ended ∧ ∀ path fault told, ended.1 = .unsaved path fault told → told = done ∧
      ∃ before text behind middle, files = before ++ (path, text) :: behind ∧ run.Saves before middle ∧
        (FileAction.writeWithFolders path text.toUTF8).run middle.system = (.error fault, ended.2.system) := by
  obtain ⟨before, file, behind, middle, rfl, saved, failed⟩ := exists_of_foldlM_eq_error failed
  obtain ⟨fails, atFile⟩ := saveFile_eq_error failed
  refine ⟨fails.behind (saveFiles_eq_ok saved), fun path fault told same => ?_⟩
  obtain ⟨untold, rfl, written⟩ := atFile path fault told same
  exact ⟨untold, before, file.2, behind, middle, rfl, saveFiles_eq_ok saved, written⟩

variable (request) in
/-- The files that are to be written for languages, in their order. -/
def plannedFiles (writer : TranslationWriter) (catalogue : Catalogue) :
    List Json → Except ValueFault (List (Path × String))
  | [] => return []
  | locale :: rest => do
    let files ← translationFiles request writer catalogue locale
    let others ← plannedFiles writer catalogue rest
    return files ++ others

variable {writer : TranslationWriter} {catalogue : Catalogue} {locale : Json} {locales : List Json}

theorem needing_eq_ok {α : Type} {value : Except ValueFault α} {found : α} (needed : run.needing value = .ok found) :
    value = .ok found := by
  cases value with
  | error fault => cases needed
  | ok given =>
    cases needed
    rfl

theorem saveLocale_of_files (made : translationFiles request writer catalogue locale = .ok files) :
    saveLocale request writer catalogue (done, run) locale
      = files.foldlM (saveFile done) run >>= fun after => .ok (done ++ files.map Prod.fst, after) := by
  rw [saveLocale, made]
  rfl

theorem saveLocale_eq_ok (saved : saveLocale request writer catalogue (done, run) locale = .ok (told, after)) :
    ∃ files, translationFiles request writer catalogue locale = .ok files ∧ run.Saves files after ∧
      told = done ++ files.map Prod.fst := by
  obtain ⟨files, named, saved⟩ := bind_eq_ok_iff.mp saved
  obtain ⟨middle, saved, same⟩ := bind_eq_ok_iff.mp saved
  cases same
  exact ⟨files, needing_eq_ok named, saveFiles_eq_ok saved, rfl⟩

theorem saveLocale_eq_error {ended : RunOutcome × Run}
    (failed : saveLocale request writer catalogue (done, run) locale = .error ended) :
    run.FailsSaving ended ∧ ∀ path fault told, ended.1 = .unsaved path fault told → told = done ∧
      ∃ before text behind middle,
        translationFiles request writer catalogue locale = .ok (before ++ (path, text) :: behind) ∧
        run.Saves before middle ∧
        (FileAction.writeWithFolders path text.toUTF8).run middle.system = (.error fault, ended.2.system) := by
  cases made : translationFiles request writer catalogue locale with
  | error fault =>
    rw [saveLocale, made] at failed
    cases failed
    exact ⟨failsSaving_of_value run _, fun path other told same => nomatch same⟩
  | ok files =>
    rw [saveLocale_of_files made] at failed
    cases saved : files.foldlM (saveFile done) run with
    | ok middle =>
      rw [saved] at failed
      cases failed
    | error other =>
      rw [saved] at failed
      cases failed
      obtain ⟨fails, atFile⟩ := saveFiles_eq_error saved
      refine ⟨fails, fun path fault told same => ?_⟩
      obtain ⟨untold, before, text, behind, middle, rfl, saves, written⟩ := atFile path fault told same
      exact ⟨untold, before, text, behind, middle, rfl, saves, written⟩

theorem saveLocales_eq_ok
    (saved : locales.foldlM (saveLocale request writer catalogue) (done, run) = .ok (told, after)) :
    ∃ files, plannedFiles request writer catalogue locales = .ok files ∧ run.Saves files after ∧
      told = done ++ files.map Prod.fst := by
  induction locales generalizing done run with
  | nil =>
    cases saved
    exact ⟨[], rfl, .refl _, (List.append_nil _).symm⟩
  | cons locale rest ih =>
    obtain ⟨⟨earlier, middle⟩, first, later⟩ := foldlM_cons_eq_ok_iff.mp saved
    obtain ⟨files, made, saves, rfl⟩ := saveLocale_eq_ok first
    obtain ⟨others, planned, savesLater, rfl⟩ := ih later
    refine ⟨files ++ others, ?_, saves.trans savesLater, by rw [List.map_append, List.append_assoc]⟩
    rw [plannedFiles, made, planned]
    rfl

variable (request catalogue) in
/-- How the saving of a catalogue ends: with the files of all languages, or at a file that cannot be written. The
files of the languages that are complete by then are `done`, those of the language at which it ended are
`current`. -/
inductive EndsSaving (before : FileSystem) :
    Option (Path × FileFault) → FileSystem → List (Path × String) → List (Path × String) → Prop
  | whole {writer : TranslationWriter} {done : List (Path × String)} {after : FileSystem}
      (format : Run.writer request = .ok writer)
      (planned : plannedFiles request writer catalogue request.settings.locales = .ok done)
      (writes : before.Writes done after) : EndsSaving before none after done []
  | cut {writer : TranslationWriter} {earlier later : List Json} {locale : Json} {path : Path} {text : String}
      {done current behind : List (Path × String)} {middle after : FileSystem} {fault : FileFault}
      (format : Run.writer request = .ok writer)
      (languages : request.settings.locales = earlier ++ locale :: later)
      (planned : plannedFiles request writer catalogue earlier = .ok done)
      (here : translationFiles request writer catalogue locale = .ok (current ++ (path, text) :: behind))
      (writes : before.Writes (done ++ current) middle)
      (fails : (FileAction.writeWithFolders path text.toUTF8).run middle = (.error fault, after)) :
      EndsSaving before (some (path, fault)) after done current

theorem saveAll_of_writer (format : Run.writer request = .ok writer) :
    run.saveAll request catalogue
      = request.settings.locales.foldlM (saveLocale request writer catalogue) ([], run) := by
  rw [saveAll, format]

theorem saveAll_eq_ok (saved : run.saveAll request catalogue = .ok (told, after)) :
    ∃ done, EndsSaving request catalogue run.system none after.system done [] ∧ run.Saves done after ∧
      told = done.map Prod.fst := by
  unfold saveAll at saved
  split at saved
  · cases saved
  · rename_i format
    obtain ⟨files, planned, saves, rfl⟩ := saveLocales_eq_ok saved
    exact ⟨files, .whole format planned saves.writes, saves, rfl⟩

theorem saveAll_eq_error {ended : RunOutcome × Run} (failed : run.saveAll request catalogue = .error ended) :
    run.FailsSaving ended ∧ ∀ path fault told, ended.1 = .unsaved path fault told →
      ∃ done current, EndsSaving request catalogue run.system (some (path, fault)) ended.2.system done current ∧
        told = done.map Prod.fst := by
  unfold saveAll at failed
  split at failed
  · cases failed
    exact ⟨failsSaving_of_value run _, fun path other told same => nomatch same⟩
  · rename_i format
    obtain ⟨earlier, locale, later, ⟨earlierTold, middle⟩, languages, saved, failed⟩ :=
      exists_of_foldlM_eq_error failed
    obtain ⟨done, planned, saves, rfl⟩ := saveLocales_eq_ok saved
    obtain ⟨fails, atFile⟩ := saveLocale_eq_error failed
    refine ⟨fails.behind saves, fun path fault told same => ?_⟩
    obtain ⟨rfl, current, text, behind, reached, here, savesHere, refused⟩ := atFile path fault told same
    exact ⟨done, current, .cut format languages planned here (saves.trans savesHere).writes refused, rfl⟩

/-- What a saving that ended like this has written, and that `told` are the files of the languages that were
complete: all of them exactly if no file of the language at which it ended was written. -/
def TellsOfComplete (request : RunRequest) (catalogue : Catalogue) (before : FileSystem)
    (fault? : Option (Path × FileFault)) (after : FileSystem) (told : List Path) : Prop :=
  ∃ done current, EndsSaving request catalogue before fault? after done current ∧ told = done.map Prod.fst ∧
    (told = (done ++ current).map Prod.fst ↔ current = [])

theorem EndsSaving.tells {before after : FileSystem} {fault? : Option (Path × FileFault)}
    {done current : List (Path × String)} (ends : EndsSaving request catalogue before fault? after done current) :
    TellsOfComplete request catalogue before fault? after (done.map Prod.fst) := by
  refine ⟨done, current, ends, rfl, ?_⟩
  rw [List.map_append]
  constructor
  · intro same
    exact List.map_eq_nil_iff.mp (List.append_right_eq_self.mp same.symm)
  · rintro rfl
    exact (List.append_nil _).symm

end Run

namespace RunRequest

/-- A run tells of all files that it has written if they could all be written. If one could not, it tells of those
of the languages before, and no file of the same language that was written: they are told of exactly if there are
none. -/
theorem run_tells_of_complete_languages (request : RunRequest) :
    (∀ (run after : Run) (catalogue : Catalogue) (told : List Path),
      (run.saveAll request catalogue = .ok (told, after) →
        Run.TellsOfComplete request catalogue run.system none after.system told) ∧
      ∀ path fault, run.saveAll request catalogue = .error (.unsaved path fault told, after) →
        Run.TellsOfComplete request catalogue run.system (some (path, fault)) after.system told) ∧
    ∀ (system : FileSystem) (told : List Path),
      (∀ count, (request.run system).1 = .saved count told →
        ∃ wanted, Run.TellsOfComplete request wanted system none (request.run system).2.system told) ∧
      ∀ path fault, (request.run system).1 = .unsaved path fault told →
        ∃ wanted, Run.TellsOfComplete request wanted system (some (path, fault)) (request.run system).2.system told := by
  refine ⟨fun run after catalogue told => ⟨fun saved => ?_, fun path fault failed => ?_⟩, fun system told => ?_⟩
  · obtain ⟨done, ends, -, rfl⟩ := Run.saveAll_eq_ok saved
    exact ends.tells
  · obtain ⟨done, current, ends, rfl⟩ := (Run.saveAll_eq_error failed).2 path fault told rfl
    exact ends.tells
  · obtain ⟨ended, records, ends, run⟩ := exists_run_eq request system
    rw [run]
    refine ⟨fun count same => ?_, fun path fault same => ?_⟩
    · cases ends with
      | early harvest unwritten => cases same ▸ unwritten.2
      | preview => cases same
      | saved harvest harvests real saves =>
        cases same
        obtain ⟨done, ends, -, rfl⟩ := Run.saveAll_eq_ok saves
        exact ⟨_, harvests.system ▸ ends.tells⟩
      | unsaved harvest harvests real fails => cases same ▸ (Run.saveAll_eq_error fails).1.isSuccess
    · cases ends with
      | early harvest unwritten => cases same ▸ unwritten.2
      | preview => cases same
      | saved => cases same
      | unsaved harvest harvests real fails =>
        obtain ⟨done, current, ends, rfl⟩ := (Run.saveAll_eq_error fails).2 path fault told same
        exact ⟨_, harvests.system ▸ ends.tells⟩

/-- A request to write the texts of forms in English. -/
def formsInEnglish : RunRequest :=
  { previewOfForms with
    settings := { previewOfForms.settings with locales := [.string "en"] }
    dryRun := false }

namespace FormsInEnglish

def jsonWriter : TranslationWriter := { format := .json, style := { withPlaces := false } }

theorem writer_formsInEnglish : Run.writer formsInEnglish = .ok jsonWriter := rfl

theorem translationFiles_english (catalogue : Catalogue) :
    Run.translationFiles formsInEnglish jsonWriter catalogue (.string "en")
      = .ok ((TranslationWriter.groups catalogue).map fun group =>
          ((Path.ofText "out").join (Path.ofText (jsonWriter.fileName group.1 "en")),
            writeMessageJson false group.2)) := by
  have files : jsonWriter.files catalogue "en" = (TranslationWriter.groups catalogue).map fun group =>
      (jsonWriter.fileName group.1 "en", writeMessageJson false group.2) := rfl
  change Except.ok ((jsonWriter.files catalogue "en").map fun file =>
    ((Path.ofText "out").join (Path.ofText file.1), file.2)) = _
  rw [files, List.map_map]
  rfl

def out : Path := ⟨"", ["out"]⟩

section Ways

variable {system : FileSystem} {entries : List (String × FileTree)}

theorem ensureFolders_out (atStart : system.current = []) (folder : system.root.at? ["out"] = some (.folder entries)) :
    (FileAction.ensureFolders out).run system = (.ok (), system) := by
  have leads (ending : FileSystem.WayEnd) : system.wayTo ending out = .ok ["out"] := by
    refine FileSystem.wayTo_of_wayFrom (by decide) (by decide) (by decide) ?_
    rw [atStart]
    exact (FileSystem.wayFrom_cons_of_folder (by decide) (by decide) folder).trans (by rw [FileSystem.wayFrom]; rfl)
  refine FileAction.run_ensureFolders_of_folder (leads .link) (by rw [folder]; rfl) ?_
  rw [FileSystem.kind?, leads .target]
  simp only [folder]

theorem wayTo_inOut {name : String} {ending : FileSystem.WayEnd} {way : List String} (atStart : system.current = [])
    (folder : system.root.at? ["out"] = some (.folder entries))
    (found : FileSystem.wayFrom system.root ending FileSystem.maxLinks ["out"] [name] = .ok way)
    (noNul : (Path.text ⟨"", ["out", name]⟩).toList.contains '\x00' = false)
    (short : (Path.text ⟨"", ["out", name]⟩).utf8ByteSize < FileSystem.maxPathSize) (noSlash : [name] ≠ [""]) :
    system.wayTo ending ⟨"", ["out", name]⟩ = .ok way := by
  refine FileSystem.wayTo_of_wayFrom rfl noNul short ?_
  rw [atStart]
  exact (FileSystem.wayFrom_cons_of_folder (by decide) noSlash folder).trans found

end Ways

open LostDraft

def messages : Path := ⟨"", ["out", "messages.en.json"]⟩

/-- The folder of the forms with a file of translations beside it. -/
def translated (content : ByteArray) : FileSystem where
  root := .folder [
    ("forms", .folder [("Draft.php", .link "Lost.php"), ("Person.php", .file personPage)]),
    ("out", .folder [("messages.en.json", .file content)])]
  current := []

/-- Where there is no folder for translations yet, it is made. -/
theorem write_messages (text : String) : (FileAction.writeWithFolders messages text.toUTF8).run lostDraft
    = (.ok (), translated text.toUTF8) := by
  have free : lostDraft.root.at? ["out"] = none := rfl
  have leads : lostDraft.wayTo .link out = .ok ["out"] :=
    FileSystem.wayTo_of_wayFrom (by decide) (by decide) (by decide) (FileSystem.wayFrom_of_free (by decide) free)
  have folders : (FileAction.ensureFolders messages.parent).run lostDraft = _ :=
    FileAction.run_ensureFolders_of_made (FileAction.run_makeFolder_of_free leads free)
  rw [FileAction.run_writeWithFolders folders]
  let made : FileSystem := { lostDraft with root := lostDraft.root.put ["out"] .empty }
  have folder : made.root.at? ["out"] = some (.folder []) := rfl
  have free : made.root.at? ["out", "messages.en.json"] = none := rfl
  have leads : made.wayTo .newFile messages = .ok ["out", "messages.en.json"] :=
    wayTo_inOut rfl folder (FileSystem.wayFrom_of_free (by decide) free) (by decide) (by decide) (by decide)
  exact FileAction.run_write_of_free leads free

theorem harvest_forms : ∃ wanted harvested,
    (formsInEnglish.start lostDraft).harvest formsInEnglish = .ok (wanted, harvested) ∧
      harvested.system = lostDraft ∧ wanted.messages.map Message.outputDomain = ["messages"] := by
  have found : formsInEnglish.settings.foundFiles lostDraft = [draft, person] := foundFiles_forms
  obtain ⟨after, wanted, harvested, harvest, behind, rfl, system⟩ :=
    harvest_of_handled formsInEnglish rfl rfl (by decide) (by rw [found]; decide) (found ▸ handled_forms) rfl rfl
  refine ⟨_, harvested, harvest, system, ?_⟩
  have units : lostDraft.units formsInEnglish [draft, person] = _ := units_forms
  rw [found] at behind
  rw [behind.adds.merged, units]
  decide +kernel

theorem saveAll_forms (run : Run) {wanted : Catalogue} (system : run.system = lostDraft)
    (domains : wanted.messages.map Message.outputDomain = ["messages"]) :
    ∃ after text, run.saveAll formsInEnglish wanted = .ok ([messages], after) ∧ after.system = translated text := by
  let group := (wanted.messages.filter (·.outputDomain == "messages")).mergeSort (·.id ≤ ·.id)
  have groups : TranslationWriter.groups wanted = [("messages", group)] := by
    have names : ["messages"].eraseDups = ["messages"] := by decide
    rw [TranslationWriter.groups, domains, names, List.mergeSort_singleton]
    rfl
  have place : (Path.ofText "out").join (Path.ofText (jsonWriter.fileName "messages" "en")) = messages := by
    decide
  have files : Run.translationFiles formsInEnglish jsonWriter wanted (.string "en")
      = .ok [(messages, writeMessageJson false group)] := by
    rw [translationFiles_english, groups, List.map_singleton, place]
  have saved : ∃ after, Run.saveFile [] run (messages, writeMessageJson false group) = .ok after ∧
      after.system = translated (writeMessageJson false group).toUTF8 := by
    rw [Run.saveFile, system, write_messages]
    exact ⟨_, rfl, rfl⟩
  obtain ⟨after, saved, translated⟩ := saved
  refine ⟨after, _, ?_, translated⟩
  rw [Run.saveAll_of_writer writer_formsInEnglish, show formsInEnglish.settings.locales = [.string "en"] from rfl,
    List.foldlM_cons, Run.saveLocale_of_files files, List.foldlM_cons, saved]
  rfl

theorem run_forms : (formsInEnglish.run lostDraft).1 = .saved 1 [messages] ∧
    ∃ text, (formsInEnglish.run lostDraft).2.system = translated text := by
  obtain ⟨wanted, harvested, harvest, system, domains⟩ := harvest_forms
  obtain ⟨after, text, saved, translated⟩ :=
    saveAll_forms (harvested.enter .saving formsInEnglish.settings.outputFolder.shown) system domains
  have size : wanted.size = 1 := by
    have count := congrArg List.length domains
    rwa [List.length_map] at count
  have delivered : harvested.deliver formsInEnglish wanted
      = .ok (.saved wanted.size [messages], after.enter .completed s!"{[messages].length} files written") := by
    rw [Run.deliver, if_neg (by decide), saved]
    rfl
  rw [run_of_deliver formsInEnglish harvest delivered rfl, size]
  exact ⟨rfl, text, translated⟩

end FormsInEnglish

/-- Texts in two domains. -/
def twoDomains : Catalogue :=
  Catalogue.empty.addAll [{ id := "A", domain := some "a" }, { id := "B", domain := some "b" }]

/-- A folder for translations in which a folder stands where a file is to be written. -/
def blockedFolder : FileSystem where
  root := .folder [("out", .folder [("b.en.json", .folder [])])]
  current := []

namespace BlockedFolder

open FormsInEnglish

def fileA : Path := ⟨"", ["out", "a.en.json"]⟩

def fileB : Path := ⟨"", ["out", "b.en.json"]⟩

/-- The folder with the first file written. -/
def halfWritten (content : ByteArray) : FileSystem where
  root := .folder [("out", .folder [("b.en.json", .folder []), ("a.en.json", .file content)])]
  current := []

theorem groups_twoDomains : TranslationWriter.groups twoDomains
    = [("a", [{ id := "A", domain := some "a" }]), ("b", [{ id := "B", domain := some "b" }])] := by
  have messages : twoDomains.messages = [{ id := "A", domain := some "a" }, { id := "B", domain := some "b" }] := by
    decide
  have domains : (twoDomains.messages.map Message.outputDomain).eraseDups = ["a", "b"] := by decide
  have ordered : ["a", "b"].Pairwise fun first second => decide (first ≤ second) = true := by decide
  rw [TranslationWriter.groups, domains, List.mergeSort_of_pairwise ordered, messages]
  simp [Message.outputDomain]

theorem translationFiles_twoDomains :
    Run.translationFiles formsInEnglish jsonWriter twoDomains (.string "en")
      = .ok [(fileA, writeMessageJson false [{ id := "A", domain := some "a" }]),
          (fileB, writeMessageJson false [{ id := "B", domain := some "b" }])] := by
  have atA : (Path.ofText "out").join (Path.ofText (jsonWriter.fileName "a" "en")) = fileA := by decide
  have atB : (Path.ofText "out").join (Path.ofText (jsonWriter.fileName "b" "en")) = fileB := by decide
  rw [translationFiles_english, groups_twoDomains]
  simp only [List.map_cons, List.map_nil, atA, atB]

theorem write_fileA (text : String) : (FileAction.writeWithFolders fileA text.toUTF8).run blockedFolder
    = (.ok (), halfWritten text.toUTF8) := by
  have folder : blockedFolder.root.at? ["out"] = some (.folder [("b.en.json", .folder [])]) := rfl
  have free : blockedFolder.root.at? ["out", "a.en.json"] = none := rfl
  have leads : blockedFolder.wayTo .newFile fileA = .ok ["out", "a.en.json"] :=
    wayTo_inOut rfl folder (FileSystem.wayFrom_of_free (by decide) free) (by decide) (by decide) (by decide)
  have folders : (FileAction.ensureFolders fileA.parent).run blockedFolder = (.ok (), blockedFolder) :=
    ensureFolders_out rfl folder
  rw [FileAction.run_writeWithFolders folders, FileAction.run_write_of_free leads free]
  rfl

/-- A folder stands in the way of the second file. -/
theorem write_fileB (content : ByteArray) (text : String) :
    (FileAction.writeWithFolders fileB text.toUTF8).run (halfWritten content)
      = (.error (.refused .isFolder fileB.text none), halfWritten content) := by
  have folder : (halfWritten content).root.at? ["out"]
      = some (.folder [("b.en.json", .folder []), ("a.en.json", .file content)]) := rfl
  have there : (halfWritten content).root.at? ["out", "b.en.json"] = some (.folder []) := rfl
  have way : FileSystem.wayFrom (halfWritten content).root .newFile FileSystem.maxLinks ["out"] ["b.en.json"]
      = .ok ["out", "b.en.json"] :=
    (FileSystem.wayFrom_cons_of_folder (by decide) (by decide) there).trans (by rw [FileSystem.wayFrom]; rfl)
  have leads : (halfWritten content).wayTo .newFile fileB = .ok ["out", "b.en.json"] :=
    wayTo_inOut rfl folder way (by decide) (by decide) (by decide)
  have folders : (FileAction.ensureFolders fileB.parent).run (halfWritten content) = (.ok (), halfWritten content) :=
    ensureFolders_out rfl folder
  rw [FileAction.run_writeWithFolders folders, FileAction.run_write_of_folder leads there]

theorem read_fileA_before : blockedFolder.read fileA = .error (.refused .notFound fileA.text none) := by
  have folder : blockedFolder.root.at? ["out"] = some (.folder [("b.en.json", .folder [])]) := rfl
  have free : blockedFolder.root.at? ["out", "a.en.json"] = none := rfl
  have leads : blockedFolder.wayTo .target fileA = .ok ["out", "a.en.json"] :=
    wayTo_inOut rfl folder (FileSystem.wayFrom_of_free (by decide) free) (by decide) (by decide) (by decide)
  rw [FileSystem.read, leads]
  rfl

theorem read_fileA (content : ByteArray) : (halfWritten content).read fileA = .ok content := by
  have folder : (halfWritten content).root.at? ["out"]
      = some (.folder [("b.en.json", .folder []), ("a.en.json", .file content)]) := rfl
  have there : (halfWritten content).root.at? ["out", "a.en.json"] = some (.file content) := rfl
  have leads : (halfWritten content).wayTo .target fileA = .ok ["out", "a.en.json"] :=
    wayTo_inOut rfl folder (FileSystem.wayFrom_of_file (by decide) there) (by decide) (by decide) (by decide)
  rw [FileSystem.read, leads]
  rfl

/-- The saving ends at the second file and tells of none. -/
theorem saveAll_twoDomains : ∃ after, Run.saveAll formsInEnglish { system := blockedFolder, report := {} } twoDomains
      = .error (.unsaved fileB (.refused .isFolder fileB.text none) [], after) ∧
    after.system = halfWritten (writeMessageJson false [{ id := "A", domain := some "a" }]).toUTF8 := by
  let run : Run := { system := blockedFolder, report := {} }
  let textA := writeMessageJson false [{ id := "A", domain := some "a" }]
  let middle : Run :=
    { run with system := halfWritten textA.toUTF8, log := [Run.savedRecord (fileA, textA)] }
  have first : Run.saveFile [] run (fileA, textA) = .ok middle := by
    rw [Run.saveFile, write_fileA]
    rfl
  have second (text : String) : Run.saveFile [] middle (fileB, text)
      = .error (.unsaved fileB (.refused .isFolder fileB.text none) [], middle) := by
    rw [Run.saveFile, write_fileB]
    rfl
  have failed (text : String) : [(fileA, textA), (fileB, text)].foldlM (Run.saveFile []) run
      = .error (.unsaved fileB (.refused .isFolder fileB.text none) [], middle) := by
    rw [List.foldlM_cons, first]
    change [(fileB, text)].foldlM (Run.saveFile []) middle = _
    rw [List.foldlM_cons, second]
    rfl
  refine ⟨middle, ?_, rfl⟩
  have locales : formsInEnglish.settings.locales = [.string "en"] := rfl
  rw [Run.saveAll_of_writer writer_formsInEnglish, locales, List.foldlM_cons,
    Run.saveLocale_of_files translationFiles_twoDomains, failed]
  rfl

end BlockedFolder

open BlockedFolder FormsInEnglish in
/-- Of a language with a file that cannot be written nothing is told, and where all can be written all are told of. -/
theorem formsInEnglish_are_told_of :
    (∃ after fault, Run.saveAll formsInEnglish { system := blockedFolder, report := {} } twoDomains
        = .error (.unsaved fileB fault [], after) ∧
      Run.TellsOfComplete formsInEnglish twoDomains blockedFolder (some (fileB, fault)) after.system []) ∧
    (formsInEnglish.run lostDraft).1 = .saved 1 [messages] ∧
      ∃ wanted, Run.TellsOfComplete formsInEnglish wanted lostDraft none (formsInEnglish.run lostDraft).2.system
        [messages] := by
  obtain ⟨ofSaving, ofRun⟩ := run_tells_of_complete_languages formsInEnglish
  obtain ⟨after, failed, -⟩ := saveAll_twoDomains
  obtain ⟨saved, -⟩ := run_forms
  exact ⟨⟨after, _, failed, (ofSaving _ _ _ _).2 _ _ failed⟩, saved, (ofRun lostDraft [messages]).1 1 saved⟩

open BlockedFolder in
/-- The first file is written and not told of. -/
theorem blockedFolder_has_untold_file :
    ∃ after fault, Run.saveAll formsInEnglish { system := blockedFolder, report := {} } twoDomains
        = .error (.unsaved fileB fault [], after) ∧
      blockedFolder.read fileA = .error (.refused .notFound "out/a.en.json" none) ∧
      after.system.read fileA = .ok (writeMessageJson false [{ id := "A", domain := some "a" }]).toUTF8 := by
  obtain ⟨after, failed, system⟩ := saveAll_twoDomains
  refine ⟨after, _, failed, ?_, ?_⟩
  · have text : fileA.text = "out/a.en.json" := by decide
    rw [read_fileA_before, text]
  · rw [system, read_fileA]

end RunRequest

end FormHarvest
