import FormHarvest.Proofs.CatalogueSummary
import FormHarvest.Report.Basic

namespace FormHarvest

/-- What is told to a report: the result of an extraction, a value that could not be read, or a file that was
left out, with what else is known about it. -/
inductive ReportNote where
  | extraction (result : ExtractionResult)
  | unreadable (diagnostic : Diagnostic)
  | skipped (path reason : String) (details : List (String × Json))

namespace ReportNote

/-- The files that a note mentions, in their order. The values that an extraction could not read may be named
under other files. -/
def paths : ReportNote → List String
  | extraction result => result.path :: result.diagnostics.map Diagnostic.path
  | unreadable diagnostic => [diagnostic.path]
  | skipped path _ _ => [path]

/-- How many texts a note tells of. -/
def extracted : ReportNote → Nat
  | extraction result => result.messages
  | _ => 0

/-- The values that could not be read of which a note tells. -/
def diagnostics : ReportNote → List Diagnostic
  | extraction result => result.diagnostics
  | unreadable diagnostic => [diagnostic]
  | skipped _ _ _ => []

def isSkipped : ReportNote → Bool
  | skipped _ _ _ => true
  | _ => false

/-- What else is known about a file does not say what became of it. -/
def KeepsStatus : ReportNote → Prop
  | skipped _ _ details => "status" ∉ details.map Prod.fst
  | _ => True

instance (note : ReportNote) : Decidable note.KeepsStatus := by
  cases note <;> unfold KeepsStatus <;> infer_instance

end ReportNote

/-- What an entry says that became of its file. -/
def entryStatus (entry : List (String × Json)) : Option String :=
  ((Json.object entry).field? "status").bind Json.text?

/-- How many entries of a file have a status. -/
def FileSummary.countStatus (status : String) (file : FileSummary) : Nat :=
  file.entries.countP (entryStatus · = some status)

/-- The counts of a file are those of its entries. -/
structure FileSummary.IsCounted (file : FileSummary) : Prop where
  skipped : file.skipped = file.countStatus "skipped"
  diagnostics : file.diagnostics = file.countStatus "diagnostic"

theorem Json.field?_setField_of_ne {name other : String} (different : other ≠ name) (value : Json)
    (fields : List (String × Json)) :
    (Json.object (setField other value fields)).field? name = (Json.object fields).field? name := by
  induction fields with
  | nil => simp [setField, field?, different]
  | cons first rest ih =>
    simp only [field?] at ih
    by_cases same : first.1 = other
    · simp [setField, field?, same, different]
    · by_cases found : first.1 = name
      · simp [setField, field?, found, Ne.symm different]
      · simp [setField, field?, same, found, ih]

/-- Details without a status leave that of the entry. -/
theorem entryStatus_foldl_setField {details : List (String × Json)} (silent : "status" ∉ details.map Prod.fst)
    (entry : List (String × Json)) :
    entryStatus (details.foldl (fun entry (name, value) => Json.setField name value entry) entry)
      = entryStatus entry := by
  induction details generalizing entry with
  | nil => rfl
  | cons first rest ih =>
    rw [List.map_cons, List.mem_cons, not_or] at silent
    rw [List.foldl_cons, ih silent.2, entryStatus, entryStatus, Json.field?_setField_of_ne (Ne.symm silent.1)]

namespace Report

/-- The report with a note taken down. -/
def note (report : Report) : ReportNote → Report
  | .extraction result => report.addResult result
  | .unreadable diagnostic => report.addDiagnostic diagnostic
  | .skipped path reason details => report.addSkipped path reason details

/-- The counts of all files together. -/
def sumOf (report : Report) (count : FileSummary → Nat) : Nat := (report.files.map fun file => count file.2).sum

/-- A report that mentions some files, each once and in the order in which they were first mentioned. Its
totals are the sums of their counts, and these are the counts of their entries. -/
structure IsBalanced (report : Report) (mentioned : List String) : Prop where
  paths : report.files.map Prod.fst = mentioned.eraseDups
  totalFiles : report.totalFiles = mentioned.eraseDups.length
  totalExtracted : report.totalExtracted = report.sumOf FileSummary.extracted
  totalSkipped : report.totalSkipped = report.sumOf FileSummary.skipped
  totalDiagnostics : report.totalDiagnostics = report.sumOf FileSummary.diagnostics
  counted : ∀ file ∈ report.files, file.2.IsCounted

section ChangeFile

variable {path : String} {change : FileSummary → FileSummary} {files : List (String × FileSummary)}

theorem map_fst_changeFile (path : String) (change : FileSummary → FileSummary) (files : List (String × FileSummary)) :
    (changeFile path change files).map Prod.fst
      = if path ∈ files.map Prod.fst then files.map Prod.fst else files.map Prod.fst ++ [path] := by
  induction files with
  | nil => rfl
  | cons first rest ih =>
    by_cases same : first.1 = path
    · simp [changeFile, same]
    · rw [changeFile, if_neg same, List.map_cons, ih]
      by_cases behind : path ∈ rest.map Prod.fst <;> simp [behind, Ne.symm same]

/-- What is added to the count of a file is added to the sum. A new file starts with nothing. -/
theorem sum_changeFile {count : FileSummary → Nat} {gain : Nat} (empty : count {} = 0)
    (gains : ∀ file, count (change file) = count file + gain) :
    ((changeFile path change files).map fun file => count file.2).sum
      = (files.map fun file => count file.2).sum + gain := by
  induction files with
  | nil => simp [changeFile, gains, empty]
  | cons first rest ih =>
    obtain ⟨known, file⟩ := first
    by_cases same : known = path
    · simp only [changeFile, if_pos same, List.map_cons, List.sum_cons, gains]
      omega
    · simp only [changeFile, if_neg same, List.map_cons, List.sum_cons, ih]
      omega

theorem forall_mem_changeFile {good : FileSummary → Prop} (empty : good {})
    (keeps : ∀ file, good file → good (change file)) (before : ∀ file ∈ files, good file.2) :
    ∀ file ∈ changeFile path change files, good file.2 := by
  induction files with
  | nil =>
    rintro file (_ | ⟨_, ⟨⟩⟩)
    exact keeps _ empty
  | cons first rest ih =>
    rw [List.forall_mem_cons] at before
    rw [changeFile]
    split
    · exact List.forall_mem_cons.mpr ⟨keeps _ before.1, before.2⟩
    · exact List.forall_mem_cons.mpr ⟨before.1, ih before.2⟩

end ChangeFile

/-- What a change adds to the counts of a file. -/
structure Counts (change : FileSummary → FileSummary) (extracted skipped diagnostics : Nat) : Prop where
  extracted (file : FileSummary) : (change file).extracted = file.extracted + extracted
  skipped (file : FileSummary) : (change file).skipped = file.skipped + skipped
  diagnostics (file : FileSummary) : (change file).diagnostics = file.diagnostics + diagnostics
  counted (file : FileSummary) : file.IsCounted → (change file).IsCounted

/-- One entry more, and the counts with it. -/
theorem Counts.ofEntry {change : FileSummary → FileSummary} {entry : List (String × Json)}
    {extracted skipped diagnostics : Nat}
    (entries : ∀ file, (change file).entries = file.entries ++ [entry])
    (ofExtracted : ∀ file, (change file).extracted = file.extracted + extracted)
    (ofSkipped : ∀ file, (change file).skipped = file.skipped + skipped)
    (ofDiagnostics : ∀ file, (change file).diagnostics = file.diagnostics + diagnostics)
    (isSkipped : skipped = if entryStatus entry = some "skipped" then 1 else 0)
    (isDiagnostic : diagnostics = if entryStatus entry = some "diagnostic" then 1 else 0) :
    Counts change extracted skipped diagnostics where
  extracted := ofExtracted
  skipped := ofSkipped
  diagnostics := ofDiagnostics
  counted file counted := by
    constructor
    · rw [ofSkipped, counted.skipped, isSkipped]
      simp [FileSummary.countStatus, entries, List.countP_append, List.countP_cons]
    · rw [ofDiagnostics, counted.diagnostics, isDiagnostic]
      simp [FileSummary.countStatus, entries, List.countP_append, List.countP_cons]

variable {report after : Report} {mentioned : List String} {path : String} {change : FileSummary → FileSummary}
  {extracted skipped diagnostics : Nat}

/-- A change of one file leaves a report balanced if the totals gain what the file gains. -/
theorem IsBalanced.onFile (balanced : report.IsBalanced mentioned)
    (counts : Counts change extracted skipped diagnostics)
    (files : after.files = (report.onFile path change).files)
    (totalFiles : after.totalFiles = (report.onFile path change).totalFiles)
    (totalExtracted : after.totalExtracted = report.totalExtracted + extracted)
    (totalSkipped : after.totalSkipped = report.totalSkipped + skipped)
    (totalDiagnostics : after.totalDiagnostics = report.totalDiagnostics + diagnostics) :
    after.IsBalanced (mentioned ++ [path]) where
  paths := by
    rw [files, Report.onFile, map_fst_changeFile, balanced.paths, eraseDups_concat]
    simp only [List.mem_eraseDups]
  totalFiles := by
    have known : report.files.any (·.1 == path) = decide (path ∈ mentioned) := by
      rw [Bool.eq_iff_iff, decide_eq_true_iff, ← List.mem_eraseDups, ← balanced.paths, List.any_eq_true,
        List.mem_map]
      simp only [beq_iff_eq]
    rw [totalFiles, Report.onFile, known, balanced.totalFiles, eraseDups_concat]
    by_cases there : path ∈ mentioned <;> simp [there]
  totalExtracted := by
    rw [totalExtracted, balanced.totalExtracted, sumOf, sumOf, files]
    exact (sum_changeFile rfl counts.extracted).symm
  totalSkipped := by
    rw [totalSkipped, balanced.totalSkipped, sumOf, sumOf, files]
    exact (sum_changeFile rfl counts.skipped).symm
  totalDiagnostics := by
    rw [totalDiagnostics, balanced.totalDiagnostics, sumOf, sumOf, files]
    exact (sum_changeFile rfl counts.diagnostics).symm
  counted := by
    rw [files]
    exact forall_mem_changeFile ⟨rfl, rfl⟩ counts.counted balanced.counted

theorem IsBalanced.addDiagnostic (balanced : report.IsBalanced mentioned) (diagnostic : Diagnostic) :
    (report.addDiagnostic diagnostic).IsBalanced (mentioned ++ [diagnostic.path]) := by
  have counts : Counts (fun file =>
      { file with
        diagnostics := file.diagnostics + 1
        entries := file.entries ++ [diagnosticEntry diagnostic] }) 0 0 1 :=
    .ofEntry (fun _ => rfl) (fun _ => rfl) (fun _ => rfl) (fun _ => rfl) rfl rfl
  exact balanced.onFile counts rfl rfl rfl rfl rfl

theorem IsBalanced.foldl_addDiagnostic (balanced : report.IsBalanced mentioned) (diagnostics : List Diagnostic) :
    (diagnostics.foldl Report.addDiagnostic report).IsBalanced (mentioned ++ diagnostics.map Diagnostic.path) := by
  induction diagnostics generalizing report mentioned with
  | nil => rwa [List.map_nil, List.append_nil]
  | cons first rest ih =>
    have behind := ih (balanced.addDiagnostic first)
    rwa [List.append_assoc] at behind

/-- A file that was mentioned may be mentioned again. -/
theorem IsBalanced.of_mem (balanced : report.IsBalanced (mentioned ++ [path])) (known : path ∈ mentioned) :
    report.IsBalanced mentioned := by
  have same : (mentioned ++ [path]).eraseDups = mentioned.eraseDups := by rw [eraseDups_concat, if_pos known]
  exact ⟨same ▸ balanced.paths, same ▸ balanced.totalFiles, balanced.totalExtracted, balanced.totalSkipped,
    balanced.totalDiagnostics, balanced.counted⟩

theorem IsBalanced.addResult (balanced : report.IsBalanced mentioned) (result : ExtractionResult) :
    (report.addResult result).IsBalanced (mentioned ++ result.path :: result.diagnostics.map Diagnostic.path) := by
  have gains : Counts (fun file =>
      { file with
        extracted := file.extracted + result.messages
        deferred := file.deferred + result.deferred }) result.messages 0 0 :=
    ⟨fun _ => rfl, fun _ => rfl, fun _ => rfl, fun _ counted => ⟨counted.skipped, counted.diagnostics⟩⟩
  have marks : Counts (fun file =>
      { file with entries := file.entries ++ [[("status", .string "incomplete")]] }) 0 0 0 :=
    .ofEntry (fun _ => rfl) (fun _ => rfl) (fun _ => rfl) (fun _ => rfl) rfl rfl
  unfold Report.addResult
  extract_lets known counted noted
  have atCounted : counted.IsBalanced (mentioned ++ [result.path]) :=
    balanced.onFile gains rfl rfl rfl rfl rfl
  have atNoted : noted.IsBalanced (mentioned ++ result.path :: result.diagnostics.map Diagnostic.path) := by
    have behind := atCounted.foldl_addDiagnostic result.diagnostics
    rwa [List.append_assoc] at behind
  split
  · exact atNoted
  · exact (atNoted.onFile marks rfl rfl rfl rfl rfl).of_mem (by simp)

theorem IsBalanced.addSkipped (balanced : report.IsBalanced mentioned) (path reason : String)
    {details : List (String × Json)} (silent : "status" ∉ details.map Prod.fst) :
    (report.addSkipped path reason details).IsBalanced (mentioned ++ [path]) := by
  have status : entryStatus (details.foldl (fun entry (name, value) => Json.setField name value entry)
      [("status", .string "skipped"), ("reason", .string reason)]) = some "skipped" :=
    entryStatus_foldl_setField silent _
  have counts : Counts (fun file =>
      { file with
        skipped := file.skipped + 1
        entries := file.entries ++ [details.foldl (fun entry (name, value) => Json.setField name value entry)
          [("status", .string "skipped"), ("reason", .string reason)]] }) 0 1 0 :=
    .ofEntry (fun _ => rfl) (fun _ => rfl) (fun _ => rfl) (fun _ => rfl) (by rw [status]; rfl)
      (by rw [status]; rfl)
  exact balanced.onFile counts rfl rfl rfl rfl rfl

theorem IsBalanced.note (balanced : report.IsBalanced mentioned) {note : ReportNote} (keeps : note.KeepsStatus) :
    (report.note note).IsBalanced (mentioned ++ note.paths) := by
  cases note with
  | extraction result => exact balanced.addResult result
  | unreadable diagnostic => exact balanced.addDiagnostic diagnostic
  | skipped path reason details => exact balanced.addSkipped path reason keeps

theorem IsBalanced.foldl_note (balanced : report.IsBalanced mentioned) {notes : List ReportNote}
    (keep : ∀ note ∈ notes, note.KeepsStatus) :
    (notes.foldl Report.note report).IsBalanced (mentioned ++ notes.flatMap ReportNote.paths) := by
  induction notes generalizing report mentioned with
  | nil => rwa [List.flatMap_nil, List.append_nil]
  | cons first rest ih =>
    rw [List.forall_mem_cons] at keep
    have behind := ih (balanced.note keep.1) keep.2
    rwa [List.append_assoc, ← List.flatMap_cons] at behind

/-! ### The totals of what was told -/

/-- What notes add to the totals of a report. -/
structure Told (before after : Report) (notes : List ReportNote) : Prop where
  extracted : after.totalExtracted = before.totalExtracted + (notes.map ReportNote.extracted).sum
  skipped : after.totalSkipped = before.totalSkipped + notes.countP ReportNote.isSkipped
  diagnostics : after.totalDiagnostics = before.totalDiagnostics + (notes.flatMap ReportNote.diagnostics).length

theorem Told.trans {first middle last : Report} {notes further : List ReportNote}
    (one : Told first middle notes) (two : Told middle last further) : Told first last (notes ++ further) where
  extracted := by rw [two.extracted, one.extracted, List.map_append, List.sum_append, Nat.add_assoc]
  skipped := by rw [two.skipped, one.skipped, List.countP_append, Nat.add_assoc]
  diagnostics := by rw [two.diagnostics, one.diagnostics, List.flatMap_append, List.length_append, Nat.add_assoc]

theorem told_foldl_addDiagnostic (report : Report) (diagnostics : List Diagnostic) :
    Told report (diagnostics.foldl addDiagnostic report) (diagnostics.map .unreadable) := by
  induction diagnostics generalizing report with
  | nil => exact ⟨rfl, rfl, rfl⟩
  | cons first rest ih =>
    have one : Told report (report.addDiagnostic first) [.unreadable first] := ⟨rfl, rfl, rfl⟩
    exact one.trans (ih (report.addDiagnostic first))

theorem told_note (report : Report) (note : ReportNote) : Told report (report.note note) [note] := by
  cases note with
  | extraction result =>
    show Told report (report.addResult result) _
    unfold addResult
    extract_lets known counted noted
    have behind := told_foldl_addDiagnostic counted result.diagnostics
    have extracted : noted.totalExtracted = report.totalExtracted + result.messages := by
      rw [behind.extracted]
      simp [counted, known, onFile, ReportNote.extracted, Function.comp_def]
    have skipped : noted.totalSkipped = report.totalSkipped := by
      rw [behind.skipped]
      simp [counted, known, onFile, ReportNote.isSkipped, List.countP_map, Function.comp_def]
    have diagnostics : noted.totalDiagnostics = report.totalDiagnostics + result.diagnostics.length := by
      rw [behind.diagnostics]
      simp [counted, known, onFile, ReportNote.diagnostics, List.flatMap_map]
    have whole : Told report noted [.extraction result] :=
      ⟨extracted, skipped, by simpa [ReportNote.diagnostics] using diagnostics⟩
    split
    · exact whole
    · exact ⟨whole.extracted, whole.skipped, whole.diagnostics⟩
  | unreadable diagnostic => exact ⟨rfl, rfl, rfl⟩
  | skipped path reason details => exact ⟨rfl, rfl, rfl⟩

theorem told_foldl_note (report : Report) (notes : List ReportNote) :
    Told report (notes.foldl Report.note report) notes := by
  induction notes generalizing report with
  | nil => exact ⟨rfl, rfl, rfl⟩
  | cons first rest ih => exact (told_note report first).trans (ih (report.note first))

/-- **The totals of a report are the sums of its files.** Whatever is told to a new report in whatever order,
it has each file that was mentioned once, its totals are the sums of what its files count, which is what it
was told, and the counts of each file are those of its entries. -/
theorem totals_are_sums (project : String) (locales : List Json) {notes : List ReportNote}
    (keep : ∀ note ∈ notes, note.KeepsStatus) :
    (notes.foldl note { project, locales }).IsBalanced (notes.flatMap ReportNote.paths) ∧
      Told { project, locales } (notes.foldl note { project, locales }) notes := by
  have atStart : IsBalanced { project, locales } [] :=
    ⟨rfl, rfl, rfl, rfl, rfl, List.forall_mem_nil _⟩
  exact ⟨atStart.foldl_note keep, told_foldl_note _ notes⟩

/-- Notes that mention a file again behind others, one of them for the first time as the place of a value that
the extraction of another file could not read. -/
def mixedNotes : List ReportNote := [
  .extraction { path := "Forms.php", messages := 2, complete := false, diagnostics := [
    .unreadable "Base.php" 7 "Variable", .unreadable "Forms.php" 9 "FuncCall"] },
  .skipped "Page.html" "no PHP" [("size", .int 12)],
  .unreadable (.unreadable "Base.php" 8 "Variable"),
  .extraction { path := "Base.php", messages := 1 },
  .skipped "Forms.php" "stopped" [("reason", .string "timeout")]]

theorem mixedNotes_totals :
    let report := mixedNotes.foldl note { project := "shop" }
    report.IsBalanced (mixedNotes.flatMap ReportNote.paths) ∧
      (report.totalFiles, report.totalExtracted, report.totalSkipped, report.totalDiagnostics) = (3, 3, 2, 3) ∧
      (report.files.map fun file => (file.1, file.2.diagnostics, file.2.skipped, file.2.entries.length))
        = [("Forms.php", 1, 1, 3), ("Base.php", 2, 0, 2), ("Page.html", 0, 1, 1)] :=
  ⟨(totals_are_sums "shop" [] (by decide +kernel)).1, by decide +kernel, by decide +kernel⟩

end Report

end FormHarvest
