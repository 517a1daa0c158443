import FormHarvest.Json.Basic

namespace FormHarvest

/-- The groups of settings: what is read and how, and what is written. -/
inductive SettingGroup where
  | extraction
  | output
deriving DecidableEq

namespace SettingGroup

def all : List SettingGroup := [extraction, output]

/-- The name of a group in the name of a setting. -/
def name : SettingGroup → String
  | extraction => "extraction"
  | output => "output"

/-- The name of a group in a settings file. -/
def key : SettingGroup → String
  | extraction => "extraction_settings"
  | output => "output_settings"

/-- The name of a group in messages. -/
def title : SettingGroup → String
  | extraction => "ExtractionSettings"
  | output => "OutputSettings"

def ofName? (name : String) : Option SettingGroup := all.find? fun group => group.name == name

end SettingGroup

/-- The settings of an extraction. -/
inductive Setting where
  | locales
  | scanned
  | excludedFolders
  | excludedNames
  | endings
  | domains
  | ignoredDomains
  | customFields
  | convention
  | strict
  | outputFolder
  | format
  | sourceLanguage
  | withDate
  | withPlaces
deriving DecidableEq

namespace Setting

/-- All settings, group by group. -/
def all : List Setting :=
  [locales, scanned, excludedFolders, excludedNames, endings, domains, ignoredDomains, customFields,
    convention, strict, outputFolder, format, sourceLanguage, withDate, withPlaces]

theorem mem_all (setting : Setting) : setting ∈ all := by cases setting <;> decide

def group : Setting → SettingGroup
  | outputFolder | format | sourceLanguage | withDate | withPlaces => .output
  | _ => .extraction

/-- The name of a setting in its group. -/
def name : Setting → String
  | locales => "locales"
  | scanned => "scan_dirs"
  | excludedFolders => "excluded_dirs"
  | excludedNames => "excluded_names"
  | endings => "file_extensions"
  | domains => "domains"
  | ignoredDomains => "ignored_domains"
  | customFields => "custom_fields"
  | convention => "choice_convention"
  | strict => "strict"
  | outputFolder => "output_dir"
  | format => "output_format"
  | sourceLanguage => "source_language"
  | withDate => "add_date"
  | withPlaces => "add_filerefs"

/-- What a setting is when nothing is said about it. -/
def default : Setting → Json
  | locales => Json.ofTexts ["en"]
  | scanned => Json.ofTexts ["src"]
  | excludedFolders => Json.ofTexts ["Tests", "vendor", "var", "node_modules"]
  | excludedNames => Json.ofTexts ["*Test.php", "*TestCase.php"]
  | endings => Json.ofTexts [".php"]
  | domains | ignoredDomains | customFields => .list []
  | convention => .string "current"
  | strict => .bool false
  | outputFolder => .string "translations"
  | format => .string "xlf"
  | sourceLanguage => .string "en"
  | withDate | withPlaces => .bool true

/-- The settings of a group. -/
def ofGroup (group : SettingGroup) : List Setting := all.filter fun setting => setting.group = group

/-- The setting of a name in a group. -/
def find? (group : SettingGroup) (name : String) : Option Setting :=
  (ofGroup group).find? fun setting => setting.name == name

/-- The setting of a full name: its group, a dot and its name. -/
def ofKey? (key : String) : Option Setting :=
  let group := key.toList.takeWhile (· != '.')
  let name := (key.toList.dropWhile (· != '.')).drop 1
  (SettingGroup.ofName? (String.ofList group)).bind fun group => find? group (String.ofList name)

end Setting

/-- A value for every setting. Values are not checked when they are set. -/
structure Settings where
  value : Setting → Json

namespace Settings

/-- The settings when nothing is said about any. -/
def initial : Settings := ⟨Setting.default⟩

instance : Inhabited Settings := ⟨initial⟩

/-- The settings with one of them changed. -/
def set (settings : Settings) (setting : Setting) (value : Json) : Settings :=
  ⟨fun other => if other = setting then value else settings.value other⟩

/-- The value of the setting with a full name. -/
def get? (settings : Settings) (key : String) : Option Json := (Setting.ofKey? key).map settings.value

/-- The settings of a group with values given by their names. Settings that are not named go back to
what they are when nothing is said about them. -/
def setGroup (settings : Settings) (group : SettingGroup) (given : List (String × Json)) : Settings :=
  ⟨fun setting =>
    if setting.group = group then ((Json.object given).field? setting.name).getD setting.default
    else settings.value setting⟩

/-- A group of settings as it is written. -/
def groupJson (settings : Settings) (group : SettingGroup) : Json :=
  .object ((Setting.ofGroup group).map fun setting => (setting.name, settings.value setting))

/-- The settings as they are written. -/
def toJson (settings : Settings) : Json :=
  .object (SettingGroup.all.map fun group => (group.key, settings.groupJson group))

@[simp] theorem set_value_self (settings : Settings) (setting : Setting) (value : Json) :
    (settings.set setting value).value setting = value := by simp [set]

@[simp] theorem set_value_other (settings : Settings) {setting other : Setting} (value : Json)
    (different : other ≠ setting) : (settings.set setting value).value other = settings.value other := by
  simp [set, different]

@[simp] theorem setGroup_value_other (settings : Settings) {group : SettingGroup} {setting : Setting}
    (given : List (String × Json)) (outside : setting.group ≠ group) :
    (settings.setGroup group given).value setting = settings.value setting := by
  simp [setGroup, outside]

end Settings

end FormHarvest
