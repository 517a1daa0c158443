import FormHarvest.Report.Basic
import Mathlib.Data.List.Basic

namespace FormHarvest

/-- What a report says about a file that was left out. -/
def FileSummary.ofSkipped (reason : String) (details : List (String × Json)) : FileSummary where
  skipped := 1
  entries := [details.foldl (fun entry (name, value) => Json.setField name value entry)
    [("status", .string "skipped"), ("reason", .string reason)]]

/-- What a report says about a file that was gone through to its end. -/
def FileSummary.ofResult (result : ExtractionResult) : FileSummary where
  extracted := result.messages
  deferred := result.deferred
  diagnostics := result.diagnostics.length
  entries := result.diagnostics.map Report.diagnosticEntry

namespace Report

variable {report : Report} {path : String} {change : FileSummary → FileSummary} {front : List (String × FileSummary)}

theorem changeFile_append (absent : path ∉ front.map Prod.fst) (rest : List (String × FileSummary)) :
    changeFile path change (front ++ rest) = front ++ changeFile path change rest := by
  induction front with
  | nil => rfl
  | cons first others ih =>
    rw [List.map_cons, List.mem_cons, not_or] at absent
    rw [List.cons_append, changeFile, if_neg (Ne.symm absent.1), ih absent.2, List.cons_append]

theorem onFile_of_new (absent : path ∉ report.files.map Prod.fst) :
    report.onFile path change =
      { report with
        totalFiles := report.totalFiles + 1
        files := report.files ++ [(path, change {})] } := by
  have unknown : report.files.any (·.1 == path) = false := by
    rw [Bool.eq_false_iff]
    intro known
    obtain ⟨file, member, same⟩ := List.any_eq_true.mp known
    exact absent (List.mem_map.mpr ⟨file, member, eq_of_beq same⟩)
  have files : changeFile path change (report.files ++ []) = report.files ++ [(path, change {})] :=
    changeFile_append absent []
  rw [List.append_nil] at files
  rw [onFile, unknown, files]
  rfl

theorem onFile_of_last {summary : FileSummary} (files : report.files = front ++ [(path, summary)])
    (absent : path ∉ front.map Prod.fst) :
    report.onFile path change = { report with files := front ++ [(path, change summary)] } := by
  have known : report.files.any (·.1 == path) = true := by simp [files]
  have changed : changeFile path change [(path, summary)] = [(path, change summary)] := if_pos rfl
  rw [onFile, known, files, changeFile_append absent, changed]
  rfl

/-- Diagnostics about the last file of a report go to that file. -/
theorem foldl_addDiagnostic {summary : FileSummary} (files : report.files = front ++ [(path, summary)])
    (absent : path ∉ front.map Prod.fst) {diagnostics : List Diagnostic}
    (about : ∀ diagnostic ∈ diagnostics, diagnostic.path = path) :
    diagnostics.foldl addDiagnostic report =
      { report with
        totalDiagnostics := report.totalDiagnostics + diagnostics.length
        files := front ++ [(path,
          { summary with
            diagnostics := summary.diagnostics + diagnostics.length
            entries := summary.entries ++ diagnostics.map diagnosticEntry })] } := by
  induction diagnostics generalizing report summary with
  | nil =>
    rw [List.map_nil, List.append_nil]
    cases report
    cases files
    rfl
  | cons first rest ih =>
    rw [List.forall_mem_cons] at about
    have step : addDiagnostic report first =
        { report with
          totalDiagnostics := report.totalDiagnostics + 1
          files := front ++ [(path,
            { summary with
              diagnostics := summary.diagnostics + 1
              entries := summary.entries ++ [diagnosticEntry first] })] } := by
      rw [addDiagnostic, about.1, onFile_of_last files absent]
    rw [List.foldl_cons, step, ih rfl about.2]
    simp only [List.map_cons, List.length_cons, List.append_assoc, List.singleton_append, Nat.add_assoc,
      Nat.add_comm 1]

/-- A report that got one more file, which counts in the totals with what its summary says. -/
structure Gains (before after : Report) (path : String) (summary : FileSummary) : Prop where
  files : after.files = before.files ++ [(path, summary)]
  totalFiles : after.totalFiles = before.totalFiles + 1
  totalExtracted : after.totalExtracted = before.totalExtracted + summary.extracted
  totalSkipped : after.totalSkipped = before.totalSkipped + summary.skipped
  totalDiagnostics : after.totalDiagnostics = before.totalDiagnostics + summary.diagnostics

theorem gains_addSkipped (absent : path ∉ report.files.map Prod.fst) (reason : String)
    (details : List (String × Json)) :
    Gains report (report.addSkipped path reason details) path (.ofSkipped reason details) := by
  rw [addSkipped, onFile_of_new absent]
  exact ⟨rfl, rfl, rfl, rfl, rfl⟩

theorem gains_addResult {result : ExtractionResult} (absent : result.path ∉ report.files.map Prod.fst)
    (complete : result.complete = true)
    (about : ∀ diagnostic ∈ result.diagnostics, diagnostic.path = result.path) :
    Gains report (report.addResult result) result.path (.ofResult result) := by
  rw [addResult, if_pos complete, onFile_of_new absent, foldl_addDiagnostic rfl absent about]
  exact ⟨by simp [FileSummary.ofResult], rfl, by simp [FileSummary.ofResult], rfl, by simp [FileSummary.ofResult]⟩

end Report

end FormHarvest
