import FormHarvest.Extraction.Extractor
import FormHarvest.Files.Discovery
import FormHarvest.Output.Writer
import FormHarvest.Php.Quotation

namespace FormHarvest

/-- The stages of a run. -/
inductive RunStage where
  | idle
  | scanning
  | extracting
  | saving
  | completed
  | error
deriving DecidableEq

def RunStage.name : RunStage → String
  | idle => "idle"
  | scanning => "scanning"
  | extracting => "extracting"
  | saving => "saving"
  | completed => "completed"
  | error => "error"

/-- What a run does not expect and cannot go on from. -/
inductive RunFault where
  | value (fault : ValueFault)
  | search (fault : SearchFault)
  | file (fault : FileFault)
  | escape (fault : EscapeFault)
  | interrupted (interruption : Interruption)
  | unsupportedFormat (name : String)
deriving DecidableEq

/-- What is said about trees that are nested too deeply. -/
def nestedTooDeep : String := "maximum recursion depth exceeded"

/-- What is said about a fault. -/
def RunFault.message : RunFault → String
  | value fault => fault.message
  | search fault => fault.message
  | file fault => fault.message
  | escape .codePointOverflow => "Python int too large to convert to C int"
  | interrupted (.tooDeep true) => nestedTooDeep ++ " while calling a Python object"
  | interrupted (.tooDeep false) => nestedTooDeep
  | interrupted (.unreadable diagnostic) => diagnostic.message
  | interrupted .stopped => "stopped"
  | interrupted .strayUnit | interrupted .unitAsText => "Unsupported node type"
  | unsupportedFormat name => OutputFormat.unsupported name

/-- How a run ends: without files to read, stopped on request, at a value that cannot be read, at a
translation file that cannot be written, with a preview, with translation files, or at what it does
not expect. -/
inductive RunOutcome where
  | noFiles
  | stopped
  | unreadable (diagnostic : Diagnostic)
  | unsaved (path : Path) (fault : FileFault) (done : List Path)
  | previewed (messages : Nat)
  | saved (messages : Nat) (paths : List Path)
  | failed (fault : RunFault)
deriving DecidableEq

namespace RunOutcome

def isSuccess : RunOutcome → Bool
  | previewed _ | saved _ _ => true
  | _ => false

/-- What is said about the outcome. -/
def message : RunOutcome → String
  | noFiles => "No source files found"
  | stopped => "Extraction stopped by user"
  | unreadable diagnostic => diagnostic.message
  | unsaved path fault _ => s!"Error saving translation file {path.text}: {fault.message}"
  | previewed messages => s!"Found {messages} messages (dry run)"
  | saved messages paths => s!"Extracted {messages} messages into {paths.length} files"
  | failed fault => s!"Unexpected error: {fault.message}"

/-- What is said about the error that the run ended with. -/
def error? : RunOutcome → Option String
  | failed fault => some fault.message
  | unreadable diagnostic => some (message (unreadable diagnostic))
  | unsaved path fault done => some (message (unsaved path fault done))
  | _ => none

/-- The stage at which the run ended. -/
def stage : RunOutcome → RunStage
  | stopped => .extracting
  | previewed _ | saved _ _ => .completed
  | _ => .error

/-- Whether the run still tells what it counted. -/
def hasStats : RunOutcome → Bool
  | failed _ => false
  | _ => true

/-- The translation files that the run tells of. -/
def paths? : RunOutcome → Option (List Path)
  | previewed _ => some []
  | saved _ paths | unsaved _ _ paths => some paths
  | _ => none

end RunOutcome

end FormHarvest
