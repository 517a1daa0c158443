import FormHarvest.Proofs.EncodedTexts
import FormHarvest.Proofs.ReadJson
import FormHarvest.Proofs.UpdatedSettings
import FormHarvest.Proofs.WrittenValues

namespace FormHarvest

namespace Json

/-- Whether a value lists names that come without values: a text lists its characters, and a list that holds nothing
but texts lists these. -/
def listsNames : Json → Bool
  | string _ => true
  | list items => items.all (·.text?.isSome)
  | _ => false

theorem isSome_mapM_text? (items : List Json) : (items.mapM text?).isSome = items.all (·.text?.isSome) := by
  induction items with
  | nil => rfl
  | cons first rest ih =>
    rw [List.mapM_cons, List.all_cons, ← ih]
    cases first.text? <;> cases rest.mapM text? <;> rfl

theorem isObject_of_listsNames {json : Json} (names : json.listsNames = true) : json.isObject = false := by
  cases json <;> first | rfl | cases names

theorem text?_of_isNested {json : Json} (nested : json.isNested = true) : json.text? = none := by
  cases json <;> first | rfl | cases nested

end Json

/-- Whether something is said about a fault of the settings themselves. -/
def SettingsFault.isTold (fault : SettingsFault) : Bool := fault.message?.isSome

theorem SettingsFault.isTold_group (fault : GroupFault) : (group fault).isTold = fault.message?.isSome :=
  Option.isSome_map

namespace SettingGroup

variable {group : SettingGroup}

theorem isTold_oddListFault (first : Json) (rest : List Json) : (oddListFault first rest).message?.isSome = true := by
  unfold oddListFault
  dsimp only
  split <;> rfl

/-- A list in place of names with values is told of, unless it holds nothing but texts. -/
theorem isTold_listFault (group : SettingGroup) (items : List Json) :
    (group.listFault items).1.message?.isSome = !(Json.list items).listsNames := by
  unfold listFault Json.listedKeys
  simp only [Json.listed, bind, Except.bind, pure, Except.pure, Json.listsNames]
  cases nested : items.find? Json.isNested with
  | some inner =>
    have odd : items.all (·.text?.isSome) = false := by
      refine List.all_eq_false.mpr ⟨inner, List.mem_of_find?_eq_some nested, ?_⟩
      rw [Json.text?_of_isNested (List.find?_some nested)]
      exact Bool.false_ne_true
    rw [odd]
    rfl
  | none =>
    dsimp only
    generalize listed : List.filter _ items = unknown
    -- only texts are left out of the unknown items, so these are all texts exactly if all items are
    have texts : unknown.all (·.text?.isSome) = items.all (·.text?.isSome) := by
      rw [← listed, List.all_filter]
      congr 1
      funext item
      cases item <;> simp [Json.text?]
    rw [← texts, ← Json.isSome_mapM_text?]
    cases whole : unknown.mapM Json.text? with
    | some names => rfl
    | none =>
      cases unknown with
      | nil => cases whole
      | cons first rest => exact isTold_oddListFault first rest

/-- What is given for a group and is no object is told of, unless it lists names that come without values. -/
theorem isTold_of_read_eq_error {given : Json} {fault : GroupFault} (failed : (group.read given).1 = .error fault) :
    fault.message?.isSome = !given.listsNames := by
  cases given with
  | object fields => cases failed
  | list items =>
    cases failed
    exact group.isTold_listFault items
  | string text => cases failed; rfl
  | null => cases failed; rfl
  | bool value => cases failed; rfl
  | int value => cases failed; rfl
  | float value => cases failed; rfl

end SettingGroup

theorem Settings.isTold_of_check_eq_error {settings : Settings} {fault : SettingsFault}
    (failed : settings.check = .error fault) : fault.isTold = true := by
  unfold check at failed
  split at failed
  · cases failed; rfl
  · split at failed <;> cases failed
    rfl

namespace SettingsAction

/-- A way to end that is promised of loading: the settings are checked, or the fault is told of as one of the
settings. -/
def EndsTold (ended : Except SettingsFault Bool × SettingsState) : Prop :=
  (ended.1 = .ok true ∧ ended.2.settings.check = .ok ()) ∨ ∃ fault, ended.1 = .error fault ∧ fault.isTold = true

/-- What is given for a group lists names that come without values, and the groups before it, where they are given,
are objects. -/
def GivesNamesAlone (fields : List (String × Json)) : Prop :=
  ∃ (group : SettingGroup) (given : Json), (Json.object fields).field? group.key = some given ∧
    given.listsNames = true ∧
    (group = .output → ∀ earlier, (Json.object fields).field? SettingGroup.extraction.key = some earlier →
      earlier.isObject = true)

/-- What can stand in a settings file and is not told of as a fault of the settings: bytes that are no text, a number
that is too long, values that are nested in more levels than the limit, and a group that lists names alone. -/
inductive IsUntold (limit : Nat) (content : ByteArray) : Prop
  | bytes {fault : Utf8Fault} (broken : decodeUtf8 content.toList = .error fault)
  | digits {text : List Char} (decoded : decodeUtf8 content.toList = .ok text)
      (read : Json.read (plainLineEnds text) limit = .error .tooManyDigits)
  | depth {text : List Char} (decoded : decodeUtf8 content.toList = .ok text)
      (read : Json.read (plainLineEnds text) limit = .error .tooDeep)
  | names {text : List Char} {fields : List (String × Json)} (decoded : decodeUtf8 content.toList = .ok text)
      (read : Json.read (plainLineEnds text) limit = .ok (.object fields)) (names : GivesNamesAlone fields)

variable {path : Path} {state : SettingsState} {content : ByteArray} {limit : Nat}

/-- An update is told of unless a group lists names alone. -/
theorem update_endsTold_iff (fields : List (String × Json)) (state : SettingsState) :
    (∀ fault, ((update (.object fields)).run state).1 = .error fault → fault.isTold = true) ↔
      ¬GivesNamesAlone fields := by
  have refused {group : SettingGroup} {given : Json} {fault : GroupFault} {after : SettingsState}
      (failed : (group.read given).1 = .error fault) (alone : GivesNamesAlone fields ↔ given.listsNames = true) :
      (∀ other, ((.error (.group fault), after) : Except SettingsFault Unit × SettingsState).1 = .error other →
        other.isTold = true) ↔ ¬GivesNamesAlone fields := by
    have told := (SettingsFault.isTold_group fault).trans (SettingGroup.isTold_of_read_eq_error failed)
    rw [alone, Bool.not_eq_true, ← Bool.not_eq_true', ← told]
    exact ⟨fun all => all _ rfl, fun toldOf other same => by cases same; exact toldOf⟩
  rw [run_update]
  rcases run_updateGroup_cases fields .extraction state with
    ⟨objectFirst, log, run⟩ | ⟨given, fault, log, named, odd, failed, run⟩
  case inr =>
    rw [run]
    refine refused failed ⟨?_, fun names => ⟨.extraction, given, named, names, fun second => nomatch second⟩⟩
    rintro ⟨group, other, there, names, objects⟩
    cases group with
    | extraction => exact Option.some.inj (named.symm.trans there) ▸ names
    | output => cases odd.symm.trans (objects rfl given named)
  rw [run]
  dsimp only
  rcases run_updateGroup_cases fields .output
    { state with settings := state.settings.remadeGroup fields .extraction, log } with
    ⟨objectSecond, log, run⟩ | ⟨given, fault, log, named, odd, failed, run⟩
  case inr =>
    rw [run]
    refine refused failed ⟨?_, fun names => ⟨.output, given, named, names, fun _ => objectFirst⟩⟩
    rintro ⟨group, other, there, names, objects⟩
    cases group with
    | extraction => cases (objectFirst other there).symm.trans (Json.isObject_of_listsNames names)
    | output => exact Option.some.inj (named.symm.trans there) ▸ names
  rw [run]
  refine iff_of_true (fun fault failed => Settings.isTold_of_check_eq_error failed) ?_
  rintro ⟨group, other, there, names, -⟩
  have noObject := Json.isObject_of_listsNames names
  cases group with
  | extraction => cases (objectFirst other there).symm.trans noObject
  | output => cases (objectSecond other there).symm.trans noObject

/-- An update that succeeds leaves checked settings behind. -/
theorem check_of_update_eq_ok {given : Json} {after : SettingsState}
    (updated : (update given).run state = (.ok (), after)) : after.settings.check = .ok () := by
  rw [run_update] at updated
  split at updated
  · cases updated
  · split at updated
    · cases updated
    · obtain ⟨checked, rfl⟩ := Prod.mk.inj updated
      exact checked

/-- What a text does not tell of is a matter of how its JSON is read. -/
theorem isUntold_iff_of_ok {text : List Char} (decoded : decodeUtf8 content.toList = .ok text) :
    IsUntold limit content ↔ Json.read (plainLineEnds text) limit = .error .tooManyDigits ∨
      Json.read (plainLineEnds text) limit = .error .tooDeep ∨
      ∃ fields, Json.read (plainLineEnds text) limit = .ok (.object fields) ∧ GivesNamesAlone fields := by
  have same {other : List Char} (alike : decodeUtf8 content.toList = .ok other) : other = text :=
    Except.ok.inj (alike.symm.trans decoded)
  constructor
  · rintro (⟨broken⟩ | ⟨alike, read⟩ | ⟨alike, read⟩ | ⟨alike, read, names⟩)
    · cases broken.symm.trans decoded
    · exact .inl (same alike ▸ read)
    · exact .inr (.inl (same alike ▸ read))
    · exact .inr (.inr ⟨_, same alike ▸ read, names⟩)
  · rintro (read | read | ⟨fields, read, names⟩)
    · exact .digits decoded read
    · exact .depth decoded read
    · exact .names decoded read names

/-- Loading a file that exists ends as promised exactly if the file holds nothing that is not told of. -/
theorem load_endsTold_iff (held : state.system.read path = .ok content) :
    EndsTold ((load (some path) limit).run state) ↔ ¬IsUntold limit content := by
  have failed {fault : SettingsFault} {after : SettingsState} :
      EndsTold (.error fault, after) ↔ fault.isTold = true := by simp [EndsTold]
  rw [run_load_of_read held limit, Settings.readFile]
  cases decoded : decodeUtf8 content.toList with
  | error broken => exact iff_of_false (fun told => nomatch failed.mp told) fun told => told (.bytes decoded)
  | ok text =>
    rw [isUntold_iff_of_ok decoded]
    dsimp only
    cases read : Json.read (plainLineEnds text) limit with
    | error fault => cases fault <;> simp [failed, SettingsFault.isTold, SettingsFault.message?]
    | ok json =>
      cases json with
      | object fields =>
        have updated := update_endsTold_iff fields state
        dsimp only
        rcases run : (update (.object fields)).run state with ⟨fault | ⟨⟩, after⟩ <;> rw [run] at updated
        · simpa [failed] using updated
        · simpa [EndsTold, check_of_update_eq_ok run] using updated
      | _ => simp [failed, SettingsFault.isTold, SettingsFault.message?]

/-- Where the settings of `settingsAlone` are. -/
def settingsPath : Path := { parts := ["c.json"] }

/-- A file system that holds nothing but a settings file. -/
def settingsAlone (content : ByteArray) : FileSystem := ⟨.folder [("c.json", .file content)], []⟩

theorem read_settingsAlone (content : ByteArray) : (settingsAlone content).read settingsPath = .ok content := by
  have leads : (settingsAlone content).wayTo .target settingsPath = .ok ["c.json"] :=
    FileSystem.wayTo_of_wayFrom rfl (by decide) (by decide) (FileSystem.wayFrom_of_file (by decide) rfl)
  rw [FileSystem.read, leads]
  rfl

/-- A settings file that gives null for a group. -/
def nullGroup : ByteArray := ((Json.object [("output_settings", .null)]).write .oneLine).toUTF8

theorem nullGroup_not_isUntold : ¬IsUntold Json.maxDepth nullGroup := by
  have textual : Json.IsTextual Json.maxDepth (.object [("output_settings", .null)]) :=
    .object (by simp) (by simpa using .null)
  have read := Json.read_write textual .oneLine (List.forall_mem_nil _)
  rw [List.append_nil] at read
  rw [nullGroup, isUntold_iff_of_ok (decodeUtf8_toUTF8 _), Json.plainLineEnds_write, read]
  rintro (⟨⟨⟩⟩ | ⟨⟨⟩⟩ | ⟨fields, ⟨⟩, group, given, there, names, -⟩)
  cases group with
  | extraction => cases there
  | output =>
    cases there
    cases names

theorem load_nullGroup_endsTold : (settingsAlone nullGroup).read settingsPath = .ok nullGroup ∧
    EndsTold ((load (some settingsPath)).run { system := settingsAlone nullGroup }) :=
  ⟨read_settingsAlone nullGroup, (load_endsTold_iff (read_settingsAlone nullGroup)).mpr nullGroup_not_isUntold⟩

/-- A single byte that begins no character ends loading with a fault that is not told of. -/
theorem load_strayByte_not_endsTold : (settingsAlone ⟨#[0xff]⟩).read settingsPath = .ok ⟨#[0xff]⟩ ∧
    ¬EndsTold ((load (some settingsPath)).run { system := settingsAlone ⟨#[0xff]⟩ }) := by
  refine ⟨read_settingsAlone _, ?_⟩
  have bytes : (⟨#[0xff]⟩ : ByteArray).toList = [0xff] := by simp [ByteArray.toList, toList_loop_eq]
  have broken : decodeUtf8 [0xff] = .error ⟨0⟩ := by
    rw [decodeUtf8, decodeUtf8From]
    rfl
  rw [run_load_of_read (read_settingsAlone _) _, Settings.readFile, bytes, broken]
  rintro (⟨⟨⟩, -⟩ | ⟨fault, ⟨⟩, ⟨⟩⟩)

end SettingsAction

end FormHarvest
