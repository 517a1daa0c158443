import FormHarvest.Proofs.FileActions
import FormHarvest.Settings.Store

namespace FormHarvest

namespace SettingGroup

/-- Only an object gives names with values. -/
theorem read_eq_error (group : SettingGroup) {given : Json} (odd : ∀ fields, given ≠ .object fields) :
    ∃ fault, (group.read given).1 = .error fault := by
  cases given with
  | object fields => exact absurd rfl (odd fields)
  | list items => exact ⟨(group.listFault items).1, rfl⟩
  | string text => exact ⟨.noValues, rfl⟩
  | null => exact ⟨_, rfl⟩
  | bool value => exact ⟨_, rfl⟩
  | int value => exact ⟨_, rfl⟩
  | float value => exact ⟨_, rfl⟩

end SettingGroup

namespace SettingsAction

variable {state : SettingsState}

theorem run_bind {α β : Type} (first : SettingsAction α) (second : α → SettingsAction β) (state : SettingsState) :
    (first >>= second).run state =
      match first.run state with
      | (.ok value, after) => (second value).run after
      | (.error fault, after) => (.error fault, after) := by
  rw [run_bind_stateM]
  rcases first.run state with ⟨_ | _, after⟩ <;> rfl

theorem run_bind_of_ok {α β : Type} {first : SettingsAction α} {value : α} {after : SettingsState}
    (run : first.run state = (.ok value, after)) (second : α → SettingsAction β) :
    (first >>= second).run state = (second value).run after := by
  rw [run_bind, run]

theorem run_pure_bind {α β : Type} (value : α) (second : α → SettingsAction β) (state : SettingsState) :
    (pure value >>= second).run state = (second value).run state := by
  rw [run_bind]
  rfl

theorem run_get_bind {α : Type} (next : SettingsState → SettingsAction α) (state : SettingsState) :
    (get >>= next).run state = (next state).run state := by
  rw [run_bind]
  rfl

theorem run_validate (state : SettingsState) : validate.run state = (state.settings.check, state) := by
  rw [validate, run_get_bind]
  cases state.settings.check <;> rfl

section Groups

variable {fields : List (String × Json)} {group : SettingGroup}

theorem run_updateGroup_of_unnamed (unnamed : (Json.object fields).field? group.key = none) :
    (updateGroup (.object fields) group).run state = (.ok (), state) := by
  simp only [updateGroup, SettingGroup.givenIn?, unnamed]
  rfl

/-- A group that is given as an object is made anew. -/
theorem run_updateGroup_of_object {given : List (String × Json)}
    (named : (Json.object fields).field? group.key = some (.object given)) :
    (updateGroup (.object fields) group).run state
      = (.ok (), { state with
          settings := state.settings.setGroup group given
          log := state.log ++ group.unknownLog (given.map Prod.fst) }) := by
  simp only [updateGroup, SettingGroup.givenIn?, named, SettingGroup.read]
  rfl

/-- A group that is given as anything else is a fault, and stays what it is. -/
theorem run_updateGroup_of_odd (state : SettingsState) {given : Json}
    (named : (Json.object fields).field? group.key = some given)
    (odd : ∀ fields, given ≠ .object fields) :
    ∃ fault, (group.read given).1 = .error fault ∧
      (updateGroup (.object fields) group).run state
      = (.error (.group fault), { state with log := state.log ++ (group.read given).2 }) := by
  obtain ⟨fault, failed⟩ := group.read_eq_error odd
  refine ⟨fault, failed, ?_⟩
  simp only [updateGroup, SettingGroup.givenIn?, named, failed]
  rfl

/-- The groups are taken over one after the other, and then all settings are checked. -/
theorem run_update (given : Json) (state : SettingsState) :
    (update given).run state =
      match (updateGroup given .extraction).run state with
      | (.error fault, after) => (.error fault, after)
      | (.ok (), middle) =>
        match (updateGroup given .output).run middle with
        | (.error fault, after) => (.error fault, after)
        | (.ok (), after) => (after.settings.check, after) := by
  have groups : (SettingGroup.all.forM (updateGroup given) : SettingsAction Unit)
      = (updateGroup given .extraction >>= fun _ => updateGroup given .output >>= fun _ => pure ()) := rfl
  rw [update, groups, run_bind, run_bind]
  rcases (updateGroup given .extraction).run state with ⟨_ | _, middle⟩
  · rfl
  dsimp only
  rw [run_bind]
  rcases (updateGroup given .output).run middle with ⟨_ | _, after⟩
  · rfl
  · exact run_validate after

end Groups

section Loading

variable {path : Path} {content : ByteArray}

theorem run_onFiles {α : Type} (action : FileAction α) (state : SettingsState) :
    (onFiles action).run state
      = (.ok (action.run state.system).1, { state with system := (action.run state.system).2 }) := rfl

theorem kind?_of_read {system : FileSystem} (held : system.read path = .ok content) :
    system.kind? path = .ok (some .file) := by
  unfold FileSystem.read at held
  cases leads : system.wayTo .target path with
  | error fault =>
    rw [leads] at held
    cases held
  | ok way =>
    rw [leads] at held
    simp only [FileSystem.kind?, leads]
    cases there : system.root.at? way with
    | none => simp [bind, Except.bind, there] at held
    | some tree => cases tree <;> simp_all [bind, Except.bind]

/-- Loading takes over what the file holds, if that can be read. -/
theorem run_load_of_read (held : state.system.read path = .ok content) (limit : Nat) :
    (load (some path) limit).run state =
      match Settings.readFile path content limit with
      | .error fault => (.error fault, state)
      | .ok fields =>
        match (update (.object fields)).run state with
        | (.error fault, after) => (.error fault, after)
        | (.ok (), after) =>
          (.ok true, { after with log := after.log ++ [⟨.info, .settings, "Configuration loaded successfully"⟩] }) := by
  have exists_ : (FileAction.kind? path).run state.system = (.ok (some .file), state.system) := by
    rw [FileAction.kind?, FileAction.run_inspect, kind?_of_read held]
  have found : (onFiles (FileAction.kind? path)).run state = (.ok (.ok (some .file)), state) := by
    rw [run_onFiles, exists_]
  have opened : (onFiles (FileAction.inspect (·.read path))).run state = (.ok (.ok content), state) := by
    rw [run_onFiles, FileAction.run_inspect, held]
  simp only [load]
  rw [run_bind_of_ok found]
  dsimp only
  rw [run_pure_bind, Option.map_some]
  dsimp only
  rw [run_bind_of_ok opened]
  dsimp only
  cases Settings.readFile path content limit with
  | error fault => rfl
  | ok fields =>
    change (update (.object fields) >>= fun _ => note .info "Configuration loaded successfully" >>= fun _ =>
      pure true : SettingsAction Bool).run state = _
    rw [run_bind]
    dsimp only
    rcases (update (.object fields)).run state with ⟨_ | _, after⟩ <;> rfl

end Loading

end SettingsAction

end FormHarvest
