import FormHarvest.Proofs.ExtractionsAlone
import FormHarvest.Proofs.FoundFiles
import FormHarvest.Proofs.ParsedTrees
import FormHarvest.Proofs.ReportedFiles
import FormHarvest.Run.Basic
import Mathlib

namespace FormHarvest

/-- What comes of reading a file: it cannot be read, it is nested too deeply to be parsed, it is parsed, or
it is at fault in a way that ends a run. -/
inductive FileReading where
  | unreadable
  | unparsable (file : String) (line : Nat)
  | parsed (unit : SourceUnit)
  | faulty (fault : RunFault)

namespace FileReading

/-- What comes of a file that holds a source, of which `limit` levels of nesting are read. -/
def ofSource (path source : String) (limit : Nat) : FileReading :=
  match parseSource path source limit with
  | .error (.nesting file line) => unparsable file line
  | .error (.escape fault) => faulty (.escape fault)
  | .ok (unit, _) => parsed unit

def unit? : FileReading → Option SourceUnit
  | parsed unit => some unit
  | _ => none

/-- Whether a run leaves the file out. -/
def isSkipped : FileReading → Bool
  | unreadable | unparsable _ _ => true
  | _ => false

variable (extractor : Extractor)

/-- Whether a run can go on behind a file. The trees of a parsed one must not be nested too deeply to be
visited. -/
def isHandled : FileReading → Bool
  | unreadable | unparsable _ _ => true
  | parsed unit => Node.height unit.nodes ≤ extractor.maxDepth
  | faulty _ => false

/-- What a report says about a file, whatever the other files are. -/
def summary : FileReading → FileSummary
  | unreadable => .ofSkipped "unreadable" []
  | unparsable file line =>
    .ofSkipped "parse error" [("error", .string (nestingMessage file line)), ("line", .int line)]
  | parsed unit => .ofResult (extractor.alone unit).result
  | faulty _ => {}

/-- A catalogue into which that of a file alone is merged, if the file has one. -/
def mergedInto (catalogue : Catalogue) : FileReading → Catalogue
  | parsed unit => catalogue.merge (extractor.alone unit).catalogue
  | _ => catalogue

variable {extractor} (reading : FileReading)

theorem extracted_summary : (reading.summary extractor).extracted
    = (reading.unit?.toList.map fun unit => (extractor.alone unit).result.messages).sum := by
  cases reading with
  | parsed unit => exact (Nat.add_zero _).symm
  | _ => rfl

theorem skipped_summary : (reading.summary extractor).skipped = if reading.isSkipped then 1 else 0 := by
  cases reading <;> rfl

theorem mergedInto_eq_foldl (catalogue : Catalogue) : reading.mergedInto extractor catalogue
    = (reading.unit?.toList.map fun unit => (extractor.alone unit).catalogue).foldl Catalogue.merge catalogue := by
  cases reading <;> rfl

theorem size_mergedInto_le {reading : FileReading} (catalogue : Catalogue)
    (completes : ∀ unit, reading = .parsed unit → extractor.Completes unit) :
    (reading.mergedInto extractor catalogue).size ≤ catalogue.size + (reading.summary extractor).extracted := by
  cases reading with
  | parsed unit =>
    exact Nat.le_trans (catalogue.size_merge_le _) (Nat.add_le_add_left (completes unit rfl).size _)
  | _ => exact Nat.le_refl _

end FileReading

namespace FileSystem

variable (request : RunRequest)

/-- What comes of reading a file of a system. What recognises encodings and how deep sources may be nested is said by
the request. -/
def reading (system : FileSystem) (path : Path) : FileReading :=
  match system.read path with
  | .error fault => if fault.isRefusal then .unreadable else .faulty (.file fault)
  | .ok content => .ofSource path.text (decodeSource content.toList request.detector) request.settings.maxNesting

/-- The files among several that are parsed. -/
def units (system : FileSystem) (paths : List Path) : List SourceUnit :=
  paths.filterMap fun path => (system.reading request path).unit?

/-- How readings of a file come about. -/
inductive Reads (system : FileSystem) (path : Path) : FileReading → Prop where
  | unreadable {fault : FileFault} (read : system.read path = .error fault) (refused : fault.isRefusal = true) :
    Reads system path .unreadable
  | unparsable {content : ByteArray} {file : String} {line : Nat} (read : system.read path = .ok content)
    (parsed : parseSource path.text (decodeSource content.toList request.detector) request.settings.maxNesting
      = .error (.nesting file line)) :
    Reads system path (.unparsable file line)
  | parsed {content : ByteArray} {unit : SourceUnit} {log : List LogRecord} (read : system.read path = .ok content)
    (parsed : parseSource path.text (decodeSource content.toList request.detector) request.settings.maxNesting
      = .ok (unit, log)) :
    Reads system path (.parsed unit)
  | faulty (fault : RunFault) : Reads system path (.faulty fault)

variable {request}

theorem reads_reading (system : FileSystem) (path : Path) :
    system.Reads request path (system.reading request path) := by
  unfold FileSystem.reading
  split
  · rename_i fault read
    split
    · rename_i refused
      exact .unreadable read refused
    · exact .faulty _
  · rename_i content read
    unfold FileReading.ofSource
    split
    · rename_i parsed
      exact .unparsable read parsed
    · exact .faulty _
    · rename_i parsed
      exact .parsed read parsed

theorem completes_of_reading {extractor : Extractor} (goesOn : extractor.effectivePolicy = .goOn)
    {system : FileSystem} {path : Path} {unit : SourceUnit} (parsed : system.reading request path = .parsed unit)
    (handled : (system.reading request path).isHandled extractor = true) : extractor.Completes unit := by
  have reads : system.Reads request path _ := system.reads_reading path
  rw [parsed] at reads handled
  cases reads with
  | parsed read parsed =>
    exact Extractor.completes goesOn ⟨of_decide_eq_true handled, (parseSource_unitless parsed).2⟩

theorem mem_units {system : FileSystem} {paths : List Path} {unit : SourceUnit} :
    unit ∈ system.units request paths ↔ ∃ path ∈ paths, system.reading request path = .parsed unit := by
  rw [units, List.mem_filterMap]
  refine exists_congr fun path => and_congr_right fun _ => ?_
  cases system.reading request path <;> simp [FileReading.unit?]

end FileSystem

namespace RunSettings

/-- The files that a run reads: none if they cannot all be found. -/
def foundFiles (settings : RunSettings) (system : FileSystem) : List Path :=
  match settings.search.scanned.whole, settings.search.run system with
  | .ok _, .ok found => found.paths
  | _, _ => []

theorem nodup_texts_foundFiles {settings : RunSettings} {system : FileSystem}
    (named : system.root.isNamed = true) : ((settings.foundFiles system).map Path.text).Nodup := by
  unfold foundFiles
  split
  · rename_i searched
    exact Search.nodup_texts_of_run named searched
  · exact List.nodup_nil

theorem effectivePolicy_extractor {settings : RunSettings} (lenient : settings.strict = false) :
    settings.extractor.effectivePolicy = .goOn := by
  simp [extractor, Extractor.addFields, Extractor.effectivePolicy, lenient]

end RunSettings

/-- The catalogue and the report of a run that has gone through files: each file has given what it gives
alone. -/
structure AddsUp (request : RunRequest) (system : FileSystem) (paths : List Path) (catalogue : Catalogue)
    (report : Report) : Prop where
  merged : catalogue = ((system.units request paths).map fun unit =>
    (request.settings.extractor.alone unit).catalogue).foldl Catalogue.merge .empty
  files : report.files = paths.map fun path =>
    (path.text, (system.reading request path).summary request.settings.extractor)
  totalFiles : report.totalFiles = paths.length
  totalExtracted : report.totalExtracted = ((system.units request paths).map fun unit =>
    (request.settings.extractor.alone unit).result.messages).sum
  totalSkipped : report.totalSkipped = paths.countP fun path => (system.reading request path).isSkipped
  size : catalogue.size ≤ report.totalExtracted

namespace AddsUp

variable {request : RunRequest} {system : FileSystem} {paths : List Path} {catalogue : Catalogue}
  {before after : Report} {path : Path}

theorem nothing (locales : List Json) : AddsUp request system [] .empty { locales } where
  merged := rfl
  files := rfl
  totalFiles := rfl
  totalExtracted := rfl
  totalSkipped := rfl
  size := Nat.le_refl 0

/-- One more file gives what it gives alone. -/
theorem snoc (adds : AddsUp request system paths catalogue before)
    (completes : ∀ unit, system.reading request path = .parsed unit → request.settings.extractor.Completes unit)
    (gains : before.Gains after path.text ((system.reading request path).summary request.settings.extractor)) :
    AddsUp request system (paths ++ [path])
      ((system.reading request path).mergedInto request.settings.extractor catalogue) after := by
  have units : system.units request (paths ++ [path])
      = system.units request paths ++ (system.reading request path).unit?.toList := by
    rw [FileSystem.units, List.filterMap_append, List.filterMap_cons, List.filterMap_nil]
    cases (system.reading request path).unit? <;> rfl
  constructor
  case merged => rw [units, List.map_append, List.foldl_append, ← adds.merged, FileReading.mergedInto_eq_foldl]
  case files => rw [gains.files, adds.files, List.map_append, List.map_singleton]
  case totalFiles => rw [gains.totalFiles, adds.totalFiles, List.length_append, List.length_singleton]
  case totalExtracted =>
    rw [gains.totalExtracted, adds.totalExtracted, units, List.map_append, List.sum_append,
      FileReading.extracted_summary]
  case totalSkipped =>
    rw [gains.totalSkipped, adds.totalSkipped, List.countP_append, List.countP_singleton,
      FileReading.skipped_summary]
  case size =>
    rw [gains.totalExtracted]
    exact Nat.le_trans (FileReading.size_mergedInto_le catalogue completes) (Nat.add_le_add_right adds.size _)

end AddsUp

end FormHarvest
