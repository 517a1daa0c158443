import FormHarvest.Extraction.Options
import FormHarvest.Files.Fault
import FormHarvest.Files.Path
import FormHarvest.Json.Texts
import FormHarvest.Output.Writer
import FormHarvest.Settings.Basic

namespace FormHarvest

/-- Why a group of settings is no list of names with values: it is looked for in a value that holds
nothing, or in a list or a text that only mentions it; it is itself a value of a wrong kind; its
names cannot be put in order; or they come without values. -/
inductive GroupFault where
  | heldByNothing (kind : String)
  | mentionedInList
  | mentionedInText
  | value (fault : ValueFault)
  | noOrder (later earlier : String)
  | noValues
deriving DecidableEq

/-- What is said about a group that cannot be read; none when its names come without values. -/
def GroupFault.message? : GroupFault → Option String
  | heldByNothing kind => some s!"argument of type {quoted kind} is not iterable"
  | mentionedInList => some "list indices must be integers or slices, not str"
  | mentionedInText => some "string indices must be integers, not 'str'"
  | value fault => some fault.message
  | noOrder later earlier =>
    some s!"'<' not supported between instances of {quoted later} and {quoted earlier}"
  | noValues => none

/-- What goes wrong with settings. -/
inductive SettingsFault where
  | unknown (key : String)
  | unsupportedFormat (value : Json)
  | unsupportedConvention (value : Json)
  | group (fault : GroupFault)
  | unreadable (path : Path) (why : String)
  | notObject (path : Path)
  | notUtf8
  | tooManyDigits
  | tooDeep
  | file (fault : FileFault)
  | nameless
  | value (fault : ValueFault)
  | notExtended (setting : Setting)

namespace SettingsFault

/-- What is said about a fault of the settings themselves; none about the others. -/
def message? : SettingsFault → Option String
  | unknown key => some s!"Unknown setting: {key}"
  | unsupportedFormat given =>
    let names := String.intercalate ", " (OutputFormat.all.map OutputFormat.name)
    some s!"Unsupported output format '{given.shown}', expected one of: {names}"
  | unsupportedConvention given =>
    let names := String.intercalate ", " (ChoiceConvention.all.map ChoiceConvention.name)
    some s!"Unsupported choice convention '{given.shown}', expected one of: {names}"
  | group fault => fault.message?.map ("Invalid configuration: " ++ ·)
  | unreadable path why => some s!"Could not read configuration {path.text}: {why}"
  | notObject path => some s!"Configuration {path.text} must be a JSON object"
  | notUtf8 | tooManyDigits | tooDeep | file _ | nameless | value _ | notExtended _ => none

end SettingsFault

end FormHarvest
