import FormHarvest.Proofs.LoadedSettings
import FormHarvest.Proofs.WrittenFiles

namespace FormHarvest

namespace Setting

theorem isTextual_default {depth : Nat} (setting : Setting) : setting.default.IsTextual (depth + 1) := by
  have texts (texts : List String) : (Json.ofTexts texts).IsTextual (depth + 1) := by
    refine .list ?_
    simp only [List.forall_mem_map]
    exact fun text _ => .string text
  cases setting <;> first | exact texts _ | exact .list (List.forall_mem_nil _) | exact .string _ | exact .bool _

end Setting

namespace SettingGroup

/-- Nothing is logged about names that are settings. -/
theorem unknownLog_of_known {group : SettingGroup} {names : List String}
    (known : ∀ name ∈ names, (Setting.find? group name).isSome = true) : group.unknownLog names = [] := by
  have nothing : names.filter (fun name => (Setting.find? group name).isNone) = [] := by
    rw [List.filter_eq_nil_iff]
    intro name member unknown
    cases (Option.isSome_iff_ne_none.mp (known name member)) (Option.isNone_iff_eq_none.mp unknown)
  rw [unknownLog, unknownNames, nothing]
  simp

/-- The settings of a group are known by their names, whatever their values are. -/
theorem unknownLog_ofGroup (group : SettingGroup) (value : Setting → Json) :
    group.unknownLog (((Setting.ofGroup group).map fun setting => (setting.name, value setting)).map Prod.fst)
      = [] := by
  refine unknownLog_of_known ?_
  simp only [List.map_map, List.forall_mem_map]
  exact fun setting member => List.find?_isSome.mpr ⟨setting, member, beq_self_eq_true _⟩

end SettingGroup

namespace Settings

variable {settings : Settings} {group : SettingGroup} {setting : Setting}

theorem ext_value {first second : Settings} (same : ∀ setting, first.value setting = second.value setting) :
    first = second := by
  cases first
  cases second
  exact congrArg Settings.mk (funext same)

/-- The fields of all settings, as they are written. -/
def fields (settings : Settings) : List (String × Json) :=
  SettingGroup.all.map fun group => (group.key, settings.groupJson group)

theorem field?_fields (settings : Settings) (group : SettingGroup) :
    (Json.object settings.fields).field? group.key = some (settings.groupJson group) := by
  cases group <;> rfl

theorem field?_groupJson (settings : Settings) (setting : Setting) :
    (settings.groupJson setting.group).field? setting.name = some (settings.value setting) := by
  cases setting <;> rfl

/-- An update by all settings makes them what they were, whatever they are before. -/
theorem remade_fields (settings before : Settings) : before.remade settings.fields = settings :=
  ext_value fun setting => by
    rw [remade_value_of_named (settings.field?_fields setting.group), field?_groupJson, Option.getD_some]

end Settings

namespace SettingsAction

variable {state after : SettingsState} {path : Path}

/-- A group that is given as it is written becomes what was written, and nothing is logged. -/
theorem run_updateGroup_fields (settings : Settings) (group : SettingGroup) (state : SettingsState) :
    (updateGroup (.object settings.fields) group).run state
      = (.ok (), { state with settings := state.settings.remadeGroup settings.fields group }) := by
  have named := settings.field?_fields group
  rw [Settings.groupJson] at named
  rw [run_updateGroup_of_object named, SettingGroup.unknownLog_ofGroup, List.append_nil,
    Settings.remadeGroup_of_object named]

/-- An update by all settings, as they are written, makes them what they were. -/
theorem run_update_fields (settings : Settings) (state : SettingsState) :
    (update (.object settings.fields)).run state = (settings.check, { state with settings }) := by
  have whole : (state.settings.remadeGroup settings.fields .extraction).remadeGroup settings.fields .output
      = settings := settings.remade_fields state.settings
  rw [run_update, run_updateGroup_fields]
  dsimp only
  rw [run_updateGroup_fields]
  dsimp only
  rw [whole]

/-- A saved file is read back to the fields of the settings, if the JSON of the file is. -/
theorem readFile_written {settings : Settings} {limit : Nat} (path : Path)
    (lossless : Json.read settings.written.toList limit = .ok settings.toJson) :
    Settings.readFile path settings.written.toUTF8 limit = .ok settings.fields := by
  rw [Settings.readFile, decodeUtf8_toUTF8]
  dsimp only
  rw [Settings.written, Json.plainLineEnds_write, ← Settings.written, lossless]
  rfl

/-- Saving that succeeds ends with the settings as they are and their file written, where the way to the current
folder is open. -/
def EndsWriting (path : Path) (action : SettingsAction Bool) (state : SettingsState) : Prop :=
  ∀ after, action.run state = (.ok true, after) → after.settings = state.settings ∧
    ∃ system : FileSystem, system.root.IsOpen system.current ∧
      (FileAction.write path state.settings.written.toUTF8).run system = (.ok (), after.system)

section Saving

variable {α : Type} {level : LogLevel} {complaint : String} {action : FileAction α}
  {next : Option α → SettingsAction Bool}

theorem run_unlessRefused (level : LogLevel) (complaint : String) (action : FileAction α) (state : SettingsState) :
    (unlessRefused level complaint action).run state =
      match action.run state.system with
      | (.ok value, system) => (.ok (some value), { state with system })
      | (.error fault, system) =>
        if fault.isRefusal then
          (.ok none, { state with system, log := state.log ++ [⟨level, .settings, s!"{complaint}: {fault.message}"⟩] })
        else (.error (.file fault), { state with system }) := by
  rw [unlessRefused, run_bind, run_onFiles]
  rcases action.run state.system with ⟨fault | value, system⟩
  · dsimp only
    split <;> rfl
  · rfl

theorem run_unlessRefused_of_ok {value : α} {system : FileSystem}
    (acted : action.run state.system = (.ok value, system)) :
    (unlessRefused level complaint action).run state = (.ok (some value), { state with system }) := by
  rw [run_unlessRefused, acted]

theorem endsWriting_false : EndsWriting path (pure false) state := fun _ run => nomatch (Prod.mk.inj run).1

/-- What goes on after something was done with files goes on with the files as this left them, refused or not. -/
theorem exists_of_run_unlessRefused_bind {ended : Bool}
    (run : (unlessRefused level complaint action >>= next).run state = (.ok ended, after)) :
    ∃ outcome log, (next outcome).run { state with system := (action.run state.system).2, log } = (.ok ended, after) ∧
      ∀ value, outcome = some value → (action.run state.system).1 = .ok value := by
  rw [run_bind, run_unlessRefused] at run
  rcases acted : action.run state.system with ⟨fault | value, system⟩ <;> rw [acted] at run
  · dsimp only at run
    by_cases refusal : fault.isRefusal = true
    · rw [if_pos refusal] at run
      exact ⟨none, _, run, nofun⟩
    · rw [if_neg refusal] at run
      cases run
  · exact ⟨some value, state.log, run, fun _ same => by cases same; rfl⟩

theorem endsWriting_of_unlessRefused
    (ends : ∀ outcome log, EndsWriting path (next outcome) { state with system := (action.run state.system).2, log }) :
    EndsWriting path (unlessRefused level complaint action >>= next) state := by
  intro after run
  obtain ⟨outcome, log, run, -⟩ := exists_of_run_unlessRefused_bind run
  exact ends outcome log after run

/-- What is done for its effects alone is not asked how it went. -/
theorem discard_bind {β : Type} (first : SettingsAction α) (second : Unit → SettingsAction β) :
    (discard first >>= second) = (first >>= fun _ => second ()) := by
  simp only [Functor.discard, map_const, Function.comp_apply, bind_map_left, Function.const_apply]

theorem endsWriting_write (isOpen : state.system.root.IsOpen state.system.current) :
    EndsWriting path (do
      let text := (← get).settings.written
      let some _ ← unlessRefused .error notSaved (FileAction.write path text.toUTF8) | return false
      note .info "Configuration saved successfully"
      return true) state := by
  intro after run
  rw [run_get_bind] at run
  obtain ⟨outcome, log, run, written⟩ := exists_of_run_unlessRefused_bind run
  cases outcome with
  | none => cases run
  | some _ =>
    cases run
    exact ⟨rfl, state.system, isOpen, Prod.ext (written () rfl) rfl⟩

/-- Saving that succeeds ends with writing: what is done before leaves the files sound up to the move of the file that
is there already, and this leaves the way to the current folder open. -/
theorem endsWriting_saveTo (sound : state.system.IsSound) : EndsWriting path (saveTo path) state := by
  have prepared := (FileAction.keeps_ensureFolders path.parent).bind (fun _ => FileAction.keeps_kind? path) _ sound
  unfold saveTo
  dsimp only
  refine endsWriting_of_unlessRefused fun found log => ?_
  cases found with
  | none => exact endsWriting_false
  | some known =>
    dsimp only
    split
    · split
      · exact fun after run => nomatch (Prod.mk.inj run).1
      · rename_i backup _
        have moved {system : FileSystem} (sound : system.IsSound) (log : List LogRecord) :
            EndsWriting path (do
              discard <| unlessRefused .warning "Could not create backup" (FileAction.move path backup)
              let text := (← get).settings.written
              let some _ ← unlessRefused .error notSaved (FileAction.write path text.toUTF8) | return false
              note .info "Configuration saved successfully"
              return true) { state with system, log } := by
          rw [discard_bind]
          exact endsWriting_of_unlessRefused fun _ _ => endsWriting_write (FileAction.leavesOpen_move sound path backup)
        refine endsWriting_of_unlessRefused fun old log => ?_
        cases old with
        | none => exact endsWriting_false
        | some old =>
          dsimp only
          split
          · rw [discard_bind]
            exact endsWriting_of_unlessRefused fun _ log => moved (FileAction.keeps_remove backup _ prepared) log
          · exact moved prepared log
    · obtain ⟨entries, current⟩ := prepared.current
      exact endsWriting_write (FileTree.isOpen_of_folder current)

/-- Settings that are checked are loaded as they were saved, whatever steps have led to them and whatever values they
hold, if the JSON of their file is read back. -/
theorem load_of_save {file : Option Path} {limit : Nat} (sound : state.system.IsSound)
    (valid : state.settings.check = .ok ())
    (lossless : Json.read state.settings.written.toList limit = .ok state.settings.toJson)
    (saved : (save file).run state = (.ok true, after)) :
    after.settings = state.settings ∧
      (load file limit).run { system := after.system } = (.ok true, {
        settings := state.settings
        system := after.system
        log := [⟨.info, .settings, "Configuration loaded successfully"⟩] }) := by
  cases file with
  | none => cases saved
  | some path =>
    obtain ⟨same, system, isOpen, written⟩ := endsWriting_saveTo sound after saved
    have held : ({ system := after.system } : SettingsState).system.read path = .ok state.settings.written.toUTF8 :=
      FileAction.read_of_write isOpen written
    refine ⟨same, ?_⟩
    rw [run_load_of_read held limit, readFile_written path lossless]
    dsimp only
    rw [run_update_fields, valid]
    rfl

end Saving

section Textual

variable {settings : Settings} {depth : Nat}

theorem isTextual_set {setting : Setting} {value : Json} (textual : ∀ other, (settings.value other).IsTextual depth)
    (new : value.IsTextual depth) (other : Setting) : ((settings.set setting value).value other).IsTextual depth := by
  unfold Settings.set
  dsimp only
  split
  · exact new
  · exact textual other

theorem isTextual_toJson (textual : ∀ setting, (settings.value setting).IsTextual depth) :
    settings.toJson.IsTextual (depth + 2) := by
  have group (group : SettingGroup) : (settings.groupJson group).IsTextual (depth + 1) := by
    refine .object ?_ ?_
    · rw [List.map_map]
      change ((Setting.ofGroup group).map Setting.name).Nodup
      cases group <;> decide
    · simp only [List.forall_mem_map]
      exact fun setting _ => textual setting
  refine .object (show (SettingGroup.all.map SettingGroup.key).Nodup by decide) ?_
  simp only [List.forall_mem_map]
  exact fun name _ => group name

/-- Settings without numbers are read back. -/
theorem read_written (textual : ∀ setting, (settings.value setting).IsTextual depth) :
    Json.read settings.written.toList (depth + 2) = .ok settings.toJson := by
  have read := Json.read_write (isTextual_toJson textual) (.lines 4) (List.forall_mem_nil _)
  rwa [List.append_nil] at read

end Textual

/-- Settings of which one is null and one an object with a list in it. -/
def oddSettings : Settings :=
  (Settings.initial.set .strict (.object [("on", .list [.null])])).set .withDate .null

/-- Odd settings, and a file with other ones. -/
def oddState : SettingsState := { settings := oddSettings, system := settingsAlone "[]".toUTF8 }

section Odd

open FileSystem

/-- Where the settings file of `settingsAlone` is kept when another one is written. -/
def backupPath : Path := { parts := ["c.json.bak"] }

/-- What is left of `settingsAlone` when its file is moved there. -/
def backupAlone (content : ByteArray) : FileSystem := ⟨.folder [("c.json.bak", .file content)], []⟩

variable {content : ByteArray}

theorem wayTo_settingsPath {ending : WayEnd} : (settingsAlone content).wayTo ending settingsPath = .ok ["c.json"] :=
  wayTo_of_wayFrom rfl (by decide) (by decide) (wayFrom_of_file (by decide) rfl)

theorem wayTo_backupPath {ending : WayEnd} : (settingsAlone content).wayTo ending backupPath = .ok ["c.json.bak"] :=
  wayTo_of_wayFrom rfl (by decide) (by decide) (wayFrom_of_free (by decide) rfl)

theorem ensureFolders_settingsAlone :
    (FileAction.ensureFolders settingsPath.parent).run (settingsAlone content) = (.ok (), settingsAlone content) := by
  have leads {ending : WayEnd} : (settingsAlone content).wayTo ending settingsPath.parent = .ok [] :=
    wayTo_of_wayFrom rfl (by decide) (by decide) (by
      rw [show settingsPath.parent.parts = [] from rfl, wayFrom]
      rfl)
  refine FileAction.run_ensureFolders_of_folder leads rfl ?_
  rw [FileSystem.kind?, leads]
  rfl

theorem move_settingsAlone :
    (FileAction.move settingsPath backupPath).run (settingsAlone content) = (.ok (), backupAlone content) := by
  unfold FileAction.move
  dsimp only
  rw [if_neg (by decide), FileAction.run_bind, FileAction.run_tryCatch, FileAction.run_inspect, wayTo_settingsPath]
  dsimp only
  rw [FileAction.run_bind, FileAction.run_tryCatch, FileAction.run_inspect, wayTo_backupPath]
  dsimp only
  rw [FileAction.run_get_bind]
  rfl

theorem write_backupAlone (text : ByteArray) : (FileAction.write settingsPath text).run (backupAlone content)
    = (.ok (), { backupAlone content with root := (backupAlone content).root.put ["c.json"] (.file text) }) :=
  FileAction.run_write_of_free (wayTo_of_wayFrom rfl (by decide) (by decide) (wayFrom_of_free (by decide) rfl)) rfl

theorem save_oddState : ((save (some settingsPath)).run oddState).1 = .ok true := by
  have prepared : (do FileAction.ensureFolders settingsPath.parent; FileAction.kind? settingsPath).run oddState.system
      = (.ok (some .file), oddState.system) := by
    rw [FileAction.run_bind, oddState, ensureFolders_settingsAlone]
    dsimp only
    rw [FileAction.kind?, FileAction.run_inspect, kind?_of_read (read_settingsAlone _)]
  have backup : settingsPath.withEnding? ".json.bak" = some backupPath := by decide
  have free : (FileAction.kind? backupPath).run oddState.system = (.ok none, oddState.system) := by
    rw [FileAction.kind?, FileAction.run_inspect, FileSystem.kind?, oddState, wayTo_backupPath]
    rfl
  rw [save, saveTo, run_bind_of_ok (run_unlessRefused_of_ok prepared)]
  dsimp only
  rw [Option.isSome_some, if_pos rfl, backup]
  dsimp only
  rw [run_bind_of_ok (run_unlessRefused_of_ok free)]
  dsimp only
  rw [Option.isSome_none, if_neg Bool.false_ne_true, discard_bind,
    run_bind_of_ok (run_unlessRefused_of_ok move_settingsAlone), run_get_bind,
    run_bind_of_ok (run_unlessRefused_of_ok (write_backupAlone _))]
  rfl

theorem isTextual_oddSettings (setting : Setting) : (oddSettings.value setting).IsTextual (Json.maxDepth - 2) := by
  refine isTextual_set (fun other => isTextual_set Setting.isTextual_default ?_ other) .null setting
  exact .object (by simp) (by simpa using .list (by simpa using .null))

theorem isSound_settingsAlone (content : ByteArray) : (settingsAlone content).IsSound where
  once := .folder (by simp) (by simpa using .file content)
  current := ⟨_, rfl⟩

/-- Settings that hold null and an object are loaded as they were saved, where another file was moved away for them. -/
theorem load_oddState : oddState.settings.check = .ok () ∧ ((save (some settingsPath)).run oddState).1 = .ok true ∧
    ((save (some settingsPath)).run oddState).2.settings = oddSettings ∧
    (load (some settingsPath)).run { system := ((save (some settingsPath)).run oddState).2.system } = (.ok true, {
      settings := oddSettings
      system := ((save (some settingsPath)).run oddState).2.system
      log := [⟨.info, .settings, "Configuration loaded successfully"⟩] }) :=
  ⟨rfl, save_oddState, load_of_save (isSound_settingsAlone _) rfl (read_written isTextual_oddSettings)
    (Prod.ext save_oddState rfl)⟩

end Odd

end SettingsAction

end FormHarvest
