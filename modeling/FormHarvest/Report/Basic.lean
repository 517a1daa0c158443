import FormHarvest.Extraction.Extractor
import FormHarvest.Json.Writer

namespace FormHarvest

/-- What happened in one file. -/
structure FileSummary where
  extracted : Nat := 0
  deferred : Nat := 0
  skipped : Nat := 0
  diagnostics : Nat := 0
  entries : List (List (String × Json)) := []

/-- What happened in a run: the totals, and each file in the order in which it was first
mentioned. -/
structure Report where
  project : String := ""
  locales : List Json := []
  totalFiles : Nat := 0
  totalExtracted : Nat := 0
  totalSkipped : Nat := 0
  totalDiagnostics : Nat := 0
  files : List (String × FileSummary) := []

namespace Report

/-- The files with the report of one changed; a file that is new comes last. -/
def changeFile (path : String) (change : FileSummary → FileSummary) :
    List (String × FileSummary) → List (String × FileSummary)
  | [] => [(path, change {})]
  | (known, report) :: rest =>
    if known = path then (known, change report) :: rest
    else (known, report) :: changeFile path change rest

/-- Changes the report of a file, which counts from then on. -/
def onFile (report : Report) (path : String) (change : FileSummary → FileSummary) : Report :=
  let known := report.files.any (·.1 == path)
  { report with
    totalFiles := if known then report.totalFiles else report.totalFiles + 1
    files := changeFile path change report.files }

/-- The entry about a value that could not be read. -/
def diagnosticEntry (diagnostic : Diagnostic) : List (String × Json) :=
  [("status", .string "diagnostic"), ("line", .int diagnostic.line),
    ("node_kind", .string diagnostic.kind), ("message", .string diagnostic.message)]

/-- Notes a value that could not be read, under the file that it names. -/
def addDiagnostic (report : Report) (diagnostic : Diagnostic) : Report :=
  let noted := report.onFile diagnostic.path fun file =>
    { file with
      diagnostics := file.diagnostics + 1
      entries := file.entries ++ [diagnosticEntry diagnostic] }
  { noted with totalDiagnostics := noted.totalDiagnostics + 1 }

/-- Notes the result of an extraction. -/
def addResult (report : Report) (result : ExtractionResult) : Report :=
  let counted := report.onFile result.path fun file =>
    { file with
      extracted := file.extracted + result.messages
      deferred := file.deferred + result.deferred }
  let counted := { counted with totalExtracted := counted.totalExtracted + result.messages }
  let noted := result.diagnostics.foldl addDiagnostic counted
  if result.complete then noted
  else noted.onFile result.path fun file =>
    { file with entries := file.entries ++ [[("status", .string "incomplete")]] }

/-- Notes a file that was left out, with what else is known about it. -/
def addSkipped (report : Report) (path reason : String) (details : List (String × Json) := []) :
    Report :=
  let entry := details.foldl (fun entry (name, value) => Json.setField name value entry)
    [("status", .string "skipped"), ("reason", .string reason)]
  let noted := report.onFile path fun file =>
    { file with skipped := file.skipped + 1, entries := file.entries ++ [entry] }
  { noted with totalSkipped := noted.totalSkipped + 1 }

/-- The totals as they are written. -/
def totals (report : Report) : List (String × Json) :=
  [("files", .int report.totalFiles), ("extracted", .int report.totalExtracted),
    ("skipped", .int report.totalSkipped), ("diagnostics", .int report.totalDiagnostics)]

end Report

/-- The report of a file as it is written. -/
def FileSummary.toJson (file : FileSummary) : Json :=
  .object [("extracted", .int file.extracted), ("deferred", .int file.deferred),
    ("skipped", .int file.skipped), ("diagnostics", .int file.diagnostics),
    ("entries", .list (file.entries.map .object))]

/-- The report as it is written. -/
def Report.toJson (report : Report) : Json :=
  .object [("project", .string report.project), ("locales", .list report.locales),
    ("totals", .object report.totals),
    ("files", .object (report.files.map fun (path, file) => (path, file.toJson)))]

end FormHarvest
