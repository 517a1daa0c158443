import FormHarvest.Json.Texts
import FormHarvest.Message.Catalogue
import FormHarvest.Output.MessageJson

namespace FormHarvest

/-- The formats of translation files. -/
inductive OutputFormat where
  | xliff
  | json
deriving DecidableEq

namespace OutputFormat

/-- The name of a format, which is also the ending of its files. -/
def name : OutputFormat → String
  | xliff => "xlf"
  | json => "json"

def all : List OutputFormat := [xliff, json]

/-- The format of a name. -/
def ofName? (name : String) : Option OutputFormat := all.find? fun format => format.name == name

theorem ofName?_name (format : OutputFormat) : ofName? format.name = some format := by
  cases format <;> decide

/-- What is said about a name that is no format's. -/
def unsupported (name : String) : String := s!"Unsupported output format: {name}"

/-- Checks the two languages that stand in the files for a catalogue: those of an XLIFF file must
have a text. -/
def checkLanguages (format : OutputFormat) (catalogue : Catalogue) (source target : Json) :
    Except ValueFault Unit := do
  if format = .xliff ∧ ¬ catalogue.messages.isEmpty then
    discard source.documentText
    discard target.documentText

end OutputFormat

/-- How a catalogue is written. -/
structure TranslationWriter where
  format : OutputFormat := .xliff
  style : XliffStyle := {}

namespace TranslationWriter

/-- The name of the file for a domain and a language. -/
def fileName (writer : TranslationWriter) (domain locale : String) : String :=
  s!"{domain}.{locale}.{writer.format.name}"

/-- The messages of a catalogue by the domain under which they are written: domains in order, and
in each the messages in the order of their identifiers. -/
def groups (catalogue : Catalogue) : List (String × List Message) :=
  let domains := ((catalogue.messages.map Message.outputDomain).eraseDups).mergeSort (· ≤ ·)
  domains.map fun domain =>
    (domain, (catalogue.messages.filter (·.outputDomain == domain)).mergeSort (·.id ≤ ·.id))

/-- What is written for messages in a language. -/
def text (writer : TranslationWriter) (messages : List Message) (locale : String) : String :=
  match writer.format with
  | .xliff => writer.style.write messages locale
  | .json => writeMessageJson writer.style.withPlaces messages

/-- The files for a catalogue in a language: their names and texts. -/
def files (writer : TranslationWriter) (catalogue : Catalogue) (locale : String) :
    List (String × String) :=
  (groups catalogue).map fun (domain, messages) =>
    (writer.fileName domain locale, writer.text messages locale)

end TranslationWriter

end FormHarvest
