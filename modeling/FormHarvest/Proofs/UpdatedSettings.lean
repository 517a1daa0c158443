import FormHarvest.Proofs.SettingsActions

namespace FormHarvest

/-- Whether a value gives names with values. -/
def Json.isObject : Json → Bool
  | object _ => true
  | _ => false

namespace Settings

/-- The settings of one group as the fields of an update leave them, if they name the group: what they give, and for
the rest what it is when nothing is said about it. -/
def remadeGroup (fields : List (String × Json)) (settings : Settings) (group : SettingGroup) : Settings :=
  ⟨fun setting =>
    if setting.group = group then
      match (Json.object fields).field? group.key with
      | some given => (given.field? setting.name).getD setting.default
      | none => settings.value setting
    else settings.value setting⟩

/-- The settings as the fields of an update leave them. -/
def remade (settings : Settings) (fields : List (String × Json)) : Settings :=
  SettingGroup.all.foldl (remadeGroup fields) settings

section Values

variable {fields : List (String × Json)} {settings : Settings} {group : SettingGroup} {setting : Setting} {given : Json}

theorem remadeGroup_value_other (outside : setting.group ≠ group) :
    (settings.remadeGroup fields group).value setting = settings.value setting := if_neg outside

theorem remadeGroup_of_unnamed (unnamed : (Json.object fields).field? group.key = none) :
    settings.remadeGroup fields group = settings := by
  simp only [remadeGroup, unnamed, ite_self]

theorem remadeGroup_of_object {inner : List (String × Json)}
    (named : (Json.object fields).field? group.key = some (.object inner)) :
    settings.remadeGroup fields group = settings.setGroup group inner := by
  simp only [remadeGroup, setGroup, named]

theorem remade_value_of_unnamed (unnamed : (Json.object fields).field? setting.group.key = none) :
    (settings.remade fields).value setting = settings.value setting := by
  cases inGroup : setting.group <;> rw [inGroup] at unnamed <;>
    simp [remade, SettingGroup.all, remadeGroup, inGroup, unnamed]

theorem remade_value_of_named (named : (Json.object fields).field? setting.group.key = some given) :
    (settings.remade fields).value setting = (given.field? setting.name).getD setting.default := by
  cases inGroup : setting.group <;> rw [inGroup] at named <;>
    simp [remade, SettingGroup.all, remadeGroup, inGroup, named]

end Values

end Settings

namespace SettingsAction

/-- What an update does to settings: it touches only the groups that it names. If it succeeds, each of these is made
anew from what is given for it; if it fails, no group is touched that is not given as an object, and none at all if
already the first is not. -/
structure TouchesNamedGroups (fields : List (String × Json)) (before : Settings) (outcome : Except SettingsFault Unit)
    (after : Settings) : Prop where
  succeeds_iff : outcome = .ok () ↔
    (∀ (group : SettingGroup) (given : Json), (Json.object fields).field? group.key = some given →
      given.isObject = true) ∧ (before.remade fields).check = .ok ()
  unnamed : ∀ setting : Setting, (Json.object fields).field? setting.group.key = none →
    after.value setting = before.value setting
  named : outcome = .ok () → ∀ (setting : Setting) (given : Json),
    (Json.object fields).field? setting.group.key = some given →
      after.value setting = (given.field? setting.name).getD setting.default
  checked : outcome = .ok () → after.check = .ok ()
  refused : ∀ (setting : Setting) (given : Json), (Json.object fields).field? setting.group.key = some given →
    given.isObject = false → after.value setting = before.value setting
  refusedFirst : ∀ given, (Json.object fields).field? SettingGroup.extraction.key = some given →
    given.isObject = false → after = before

variable {fields : List (String × Json)} {state : SettingsState}

/-- A group is either made anew, if it is named, or the update fails there and leaves it as it is. -/
theorem run_updateGroup_cases (fields : List (String × Json)) (group : SettingGroup) (state : SettingsState) :
    ((∀ given, (Json.object fields).field? group.key = some given → given.isObject = true) ∧
      ∃ log, (updateGroup (.object fields) group).run state
        = (.ok (), { state with settings := state.settings.remadeGroup fields group, log })) ∨
    ∃ given fault log, (Json.object fields).field? group.key = some given ∧ given.isObject = false ∧
      (group.read given).1 = .error fault ∧
      (updateGroup (.object fields) group).run state = (.error (.group fault), { state with log }) := by
  cases named : (Json.object fields).field? group.key with
  | none =>
    refine .inl ⟨fun given same => (nomatch same), state.log, ?_⟩
    rw [run_updateGroup_of_unnamed named, Settings.remadeGroup_of_unnamed named]
  | some given =>
    by_cases object : ∃ inner, given = .object inner
    · obtain ⟨inner, rfl⟩ := object
      rw [Settings.remadeGroup_of_object named]
      exact .inl ⟨fun given same => by cases same; rfl, _, run_updateGroup_of_object named⟩
    · have odd : given.isObject = false := by
        cases given with
        | object inner => exact absurd ⟨inner, rfl⟩ object
        | _ => rfl
      obtain ⟨fault, failed, run⟩ := run_updateGroup_of_odd state named (not_exists.mp object)
      exact .inr ⟨given, fault, _, rfl, odd, failed, run⟩

/-- An update touches only the groups that it names. -/
theorem update_touchesNamedGroups (fields : List (String × Json)) (state : SettingsState) :
    TouchesNamedGroups fields state.settings ((update (.object fields)).run state).1
      ((update (.object fields)).run state).2.settings := by
  rw [run_update]
  rcases run_updateGroup_cases fields .extraction state with
    ⟨objectFirst, log, run⟩ | ⟨given, fault, log, named, odd, -, run⟩
  case inr =>
    -- nothing is done behind a first group that is no object
    rw [run]
    have failed : ¬(Except.error (SettingsFault.group fault) = Except.ok ()) := fun same => nomatch same
    exact {
      succeeds_iff := iff_of_false failed fun whole => by cases odd.symm.trans (whole.1 _ _ named)
      unnamed := fun _ _ => rfl
      named := fun same => absurd same failed
      checked := fun same => absurd same failed
      refused := fun _ _ _ _ => rfl
      refusedFirst := fun _ _ _ => rfl }
  rw [run]
  dsimp only
  have notFirst {given : Json} (named : (Json.object fields).field? SettingGroup.extraction.key = some given)
      (odd : given.isObject = false) : False := by cases odd.symm.trans (objectFirst given named)
  rcases run_updateGroup_cases fields .output
    { state with settings := state.settings.remadeGroup fields .extraction, log } with
    ⟨objectSecond, log, run⟩ | ⟨given, fault, log, named, odd, -, run⟩
  case inr =>
    rw [run]
    have failed : ¬(Except.error (SettingsFault.group fault) = Except.ok ()) := fun same => nomatch same
    have outside (setting : Setting) (kept : setting.group = .extraction →
        (Json.object fields).field? setting.group.key = none) :
        (state.settings.remadeGroup fields .extraction).value setting = state.settings.value setting := by
      by_cases inFirst : setting.group = .extraction
      · rw [Settings.remadeGroup_of_unnamed (inFirst ▸ kept inFirst)]
      · exact Settings.remadeGroup_value_other inFirst
    exact {
      succeeds_iff := iff_of_false failed fun whole => by cases odd.symm.trans (whole.1 _ _ named)
      unnamed := fun setting unnamed => outside setting fun _ => unnamed
      named := fun same => absurd same failed
      checked := fun same => absurd same failed
      refused := fun setting given named odd => outside setting fun inFirst => (notFirst (inFirst ▸ named) odd).elim
      refusedFirst := fun given named odd => (notFirst named odd).elim }
  rw [run]
  have whole : (state.settings.remadeGroup fields .extraction).remadeGroup fields .output
      = state.settings.remade fields := rfl
  have objects (group : SettingGroup) (given : Json) (named : (Json.object fields).field? group.key = some given) :
      given.isObject = true := by
    cases group with
    | extraction => exact objectFirst given named
    | output => exact objectSecond given named
  dsimp only
  rw [whole]
  exact {
    succeeds_iff := ⟨fun valid => ⟨objects, valid⟩, And.right⟩
    unnamed := fun setting unnamed => Settings.remade_value_of_unnamed unnamed
    named := fun _ setting given named => Settings.remade_value_of_named named
    checked := id
    refused := fun setting given named odd => by cases odd.symm.trans (objects _ _ named)
    refusedFirst := fun given named odd => (notFirst named odd).elim }

/-- The settings when nothing is said about any, but strict. -/
def strictState : SettingsState :=
  { settings := Settings.initial.set .strict (.bool true), system := ⟨.empty, []⟩ }

/-- An update that names one setting of a group takes the others of the group back to what they are when nothing is
said about them, and one that is refused for a value leaves that value behind. -/
theorem update_touches_other_settings :
    (∃ after, (update (.object [("extraction_settings", .object [("locales", Json.ofTexts ["de"])])])).run strictState
        = (.ok (), after) ∧
      (strictState.settings.value .strict matches .bool true) = true ∧
      (after.settings.value .strict matches .bool false) = true) ∧
    ∃ fault after, (update (.object [("output_settings", .object [("output_format", .string "po")])])).run strictState
        = (.error fault, after) ∧
      (strictState.settings.value .format matches .string "xlf") = true ∧
      (after.settings.value .format matches .string "po") = true := by
  refine ⟨⟨_, rfl, by decide, by decide⟩, ⟨_, _, rfl, by decide, by decide⟩⟩

end SettingsAction

end FormHarvest
