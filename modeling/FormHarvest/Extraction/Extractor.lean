import FormHarvest.Extraction.Finding
import FormHarvest.Extraction.Options
import FormHarvest.Extraction.Route
import FormHarvest.Message.Catalogue

namespace FormHarvest

/-- What happens when a value cannot be read: the extraction goes on, or it is given up. -/
inductive DiagnosticPolicy where
  | goOn
  | abort
deriving DecidableEq

/-- How deep trees may be nested where nothing else is said. -/
def Extractor.usualDepth : Nat := 1000

/-- How texts are extracted: the convention for choices, the policy for values that cannot be read,
further options that hold texts, the part of the program that takes the diagnostics, and how deep
the nodes may be nested that are visited. -/
structure Extractor where
  convention : ChoiceConvention := .current
  policy : Option DiagnosticPolicy := none
  customFields : List String := []
  logger : Option LogSource := none
  maxDepth : Nat := Extractor.usualDepth

namespace Extractor

/-- The policy in force: without one the extraction goes on only if someone takes the
diagnostics. -/
def effectivePolicy (extractor : Extractor) : DiagnosticPolicy :=
  extractor.policy.getD (if extractor.logger.isSome then .goOn else .abort)

/-- Adds options that hold texts, those that are new. -/
def addFields (extractor : Extractor) (names : List String) : Extractor :=
  let add (known : List String) (name : String) : List String :=
    if known.contains name then known else known ++ [name]
  { extractor with customFields := names.foldl add extractor.customFields }

/-- All options that hold texts, those of every extractor first. -/
def fields (extractor : Extractor) : List String :=
  builtinFields ++ extractor.customFields.filter fun name => !builtinFields.contains name

def isField (extractor : Extractor) (name : String) : Bool := extractor.fields.contains name

end Extractor

/-- What an extraction found in one file. -/
structure ExtractionResult where
  path : String
  messages : Nat := 0
  deferred : Nat := 0
  diagnostics : List Diagnostic := []
  complete : Bool := true
deriving DecidableEq

/-- Where an extraction stands: the scopes around the node it has reached, the catalogue, the
result so far, how often it may still go on (none: always) and the log. -/
structure Extraction where
  scopes : ScopeStack := {}
  catalogue : Catalogue
  result : ExtractionResult
  visitsLeft : Option Nat := none
  log : List LogRecord := []

/-- What ends an extraction before the last node: it is told to stop, a value cannot be read, trees
are nested too deeply, down to a method call or another node, or a source unit stands inside a tree,
where it cannot be visited or where it is the key or value of an item with a text. -/
inductive Interruption where
  | stopped
  | unreadable (diagnostic : Diagnostic)
  | tooDeep (atMethodCall : Bool)
  | strayUnit
  | unitAsText
deriving DecidableEq

namespace Extraction

/-- Puts messages into the catalogue. -/
def store (extraction : Extraction) (messages : List Message) : Extraction :=
  let result := extraction.result
  { extraction with
    catalogue := extraction.catalogue.addAll messages
    result := { result with messages := result.messages + messages.length } }

/-- Takes an entry: into the catalogue if its domain is fixed, else into the innermost scope. -/
def take (extraction : Extraction) (entry : Entry) (domain : Option String) : Extraction :=
  match domain with
  | some domain => extraction.store [entry.inDomain (some domain)]
  | none =>
    let result := extraction.result
    { extraction with
      scopes := extraction.scopes.defer entry
      result := { result with deferred := result.deferred + 1 } }

/-- Notes a value that cannot be read. -/
def note (extraction : Extraction) (diagnostic : Diagnostic) : Extraction :=
  let result := extraction.result
  { extraction with result := { result with diagnostics := result.diagnostics ++ [diagnostic] } }

def logged (extraction : Extraction) (records : List LogRecord) : Extraction :=
  { extraction with log := extraction.log ++ records }

variable (extractor : Extractor)

/-- Reads one text and does what follows from it. -/
def readText (extraction : Extraction) (text : TextItem) :
    Except (Interruption × Extraction) Extraction :=
  if text.item.key.any Node.isSourceUnit || text.item.value.any Node.isSourceUnit then
    .error (.unitAsText, extraction)
  else
    let (finding, records) := Finding.ofItem extraction.result.path text.item
    let extraction := extraction.logged records
    match finding with
    | .nothing => .ok extraction
    | .entry entry => .ok (extraction.take entry text.domain)
    | .diagnostic diagnostic =>
      let extraction := extraction.note diagnostic
      match extractor.effectivePolicy with
      | .abort => .error (.unreadable diagnostic, extraction)
      | .goOn =>
        .ok (extraction.logged [⟨.error, extractor.logger.getD .extraction, diagnostic.message⟩])

/-- What a node means for the extraction: a class opens a scope, a call may set the default domain
of the innermost one, and an array holds texts. -/
def visit (extraction : Extraction) (node : Node) :
    Except (Interruption × Extraction) Extraction :=
  match node with
  | .classBody _ _ _ => .ok { extraction with scopes := extraction.scopes.enter }
  | .array items _ =>
    (textItems extractor.convention extractor.isField items).foldlM (readText extractor) extraction
  | .sourceUnit _ _ => .error (.strayUnit, extraction)
  | node =>
    match node.defaultDomain? with
    | some domain => .ok { extraction with scopes := extraction.scopes.setDomain domain }
    | none => .ok extraction

/-- Uses up one of the visits that are left; none when there is none. -/
def takeVisit? (extraction : Extraction) : Option Extraction :=
  match extraction.visitsLeft with
  | none => some extraction
  | some 0 => none
  | some (left + 1) => some { extraction with visitsLeft := some left }

/-- Goes on to the next station of the way. -/
def step (extraction : Extraction) : Waypoint → Except (Interruption × Extraction) Extraction
  | .visit depth node =>
    if extractor.maxDepth ≤ depth then .error (.tooDeep node.isMethodCall, extraction)
    else
      match extraction.takeVisit? with
      | none => .error (.stopped, extraction)
      | some extraction => visit extractor extraction node
  | .leave =>
    match extraction.scopes.leave? with
    | some (scope, scopes) => .ok ({ extraction with scopes }.store scope.messages)
    | none => .ok extraction

/-- The extraction behind the last node: the entries of the file have their domain. -/
def finish (extraction : Extraction) : Extraction :=
  extraction.store extraction.scopes.file.messages

/-- What an extraction leaves when it was stopped. -/
def stop (extraction : Extraction) : Extraction :=
  { extraction with result := { extraction.result with complete := false } }.logged
    [⟨.debug, .extraction, s!"Extraction of {extraction.result.path} stopped early"⟩]

end Extraction

namespace Extractor

/-- Extracts the texts of a file into a catalogue, with at most `visits` visits of nodes if that is
given. A stop leaves a result that is not complete; what else interrupts the extraction leaves no
result, but the catalogue and the log keep what was done. -/
def run (extractor : Extractor) (path : String) (nodes : List Node) (catalogue : Catalogue)
    (visits : Option Nat := none) : Option Interruption × Extraction :=
  let start : Extraction := { catalogue, result := { path }, visitsLeft := visits }
  match (routeThrough nodes).foldlM (Extraction.step extractor) start with
  | .ok extraction => (none, extraction.finish)
  | .error (.stopped, extraction) => (none, extraction.stop)
  | .error (interruption, extraction) => (some interruption, extraction)

end Extractor

end FormHarvest
