import FormHarvest.Proofs.Merging
import FormHarvest.Proofs.WrittenGroups

namespace FormHarvest

/-! ### Groups -/

/-- Items that are grouped by their keys, in the order in which these first come, with what each group
comes to. -/
def groupedBy {α κ : Type} [DecidableEq κ] (key : α → κ) (sum : κ → List α → α) (items : List α) : List α :=
  (items.map key).eraseDups.map fun group => sum group (items.filter (key · = group))

theorem eraseDups_concat {α : Type} [DecidableEq α] (items : List α) (new : α) :
    (items ++ [new]).eraseDups = if new ∈ items then items.eraseDups else items.eraseDups ++ [new] := by
  rw [List.eraseDups_append]
  by_cases known : new ∈ items <;> simp [List.removeAll, known, List.eraseDups_cons]

namespace insertWith

variable {α κ : Type} [DecidableEq κ] {key : α → κ} {combine : α → α → α}

/-- An item of a group that is there already is taken in by what the group comes to. -/
theorem map_of_mem {groups : List κ} {sum : κ → α} (keyed : ∀ group ∈ groups, key (sum group) = group)
    (distinct : groups.Nodup) {new : α} (known : key new ∈ groups) :
    insertWith key combine new (groups.map sum)
      = groups.map fun group => if group = key new then combine (sum group) new else sum group := by
  induction groups with
  | nil => cases known
  | cons first rest ih =>
    rw [List.nodup_cons] at distinct
    rw [List.map_cons, List.map_cons, insertWith, keyed first List.mem_cons_self]
    by_cases same : first = key new
    · have others : ∀ group ∈ rest, (if group = key new then combine (sum group) new else sum group)
          = sum group := by
        intro group member
        refine if_neg fun (again : group = key new) => ?_
        rw [again, ← same] at member
        exact distinct.1 member
      rw [if_pos same, if_pos same, List.map_congr_left others]
    · have behind : key new ∈ rest := (List.mem_cons.mp known).resolve_left (Ne.symm same)
      rw [if_neg same, if_neg same, ih (fun group member => keyed group (.tail _ member)) distinct.2 behind]

/-- Items that are inserted one after the other are grouped, if what a group comes to starts with its
first item and takes each further one in. -/
theorem foldl_nil_eq_groupedBy {sum : κ → List α → α} {items : List α}
    (keyed : ∀ group own, (∀ item ∈ own, key item = group) → key (sum group own) = group)
    (starts : ∀ new ∈ items, sum (key new) [new] = new)
    (goesOn : ∀ new own, own ≠ [] → (∀ item ∈ own, key item = key new) →
      combine (sum (key new) own) new = sum (key new) (own ++ [new])) :
    items.foldl (fun all new => insertWith key combine new all) [] = groupedBy key sum items := by
  induction items using List.reverseRecOn with
  | nil => rfl
  | append_singleton front new ih =>
    have atFront := ih fun item member => starts item (List.mem_append_left _ member)
    have ofGroup (group : κ) : ∀ item ∈ front.filter (key · = group), key item = group := fun item member =>
      of_decide_eq_true (List.mem_filter.mp member).2
    have sums : ∀ group ∈ (front.map key).eraseDups,
        key (sum group (front.filter (key · = group))) = group := fun group _ =>
      keyed group _ (ofGroup group)
    rw [List.foldl_append, atFront, List.foldl_cons, List.foldl_nil, groupedBy, groupedBy, List.map_append,
      List.map_singleton, eraseDups_concat]
    by_cases known : key new ∈ front.map key
    · rw [if_pos known, map_of_mem sums (nodup_eraseDups _) (List.mem_eraseDups.mpr known)]
      refine List.map_congr_left fun group _ => ?_
      by_cases same : group = key new
      · obtain ⟨old, atOld, oldKey⟩ := List.mem_map.mp known
        have someOwn : front.filter (key · = key new) ≠ [] :=
          List.ne_nil_of_mem (List.mem_filter.mpr ⟨atOld, decide_eq_true oldKey⟩)
        rw [if_pos same, same, goesOn new _ someOwn (ofGroup _), List.filter_append]
        simp
      · rw [if_neg same, List.filter_append]
        simp [Ne.symm same]
    · have absent : key new ∉ ((front.map key).eraseDups.map fun group =>
          sum group (front.filter (key · = group))).map key := by
        have keys : (key ∘ fun group => sum group (front.filter (key · = group)))
            = fun group => key (sum group (front.filter (key · = group))) := rfl
        rw [List.map_map, keys, List.map_congr_left sums, List.map_id', List.mem_eraseDups]
        exact known
      have noneOwn : front.filter (key · = key new) = [] := List.filter_eq_nil_iff.mpr fun item member =>
        fun same => known (List.mem_map.mpr ⟨item, member, of_decide_eq_true same⟩)
      rw [if_neg known, of_new absent, List.map_append, List.map_singleton, List.filter_append, noneOwn]
      congr 1
      · refine List.map_congr_left fun group member => ?_
        have other : key new ≠ group := fun same => known (List.mem_eraseDups.mp (same ▸ member))
        rw [List.filter_append]
        simp [other]
      · simpa using (starts new (by simp)).symm

end insertWith

/-! ### What findings of one message come to -/

/-- The last remark that says something; where none does, the first one. -/
def lastRemark (remarks : List (Option String)) : Option String :=
  (remarks.filterMap (·.filter (· ≠ ""))).getLast?.or remarks.head?.join

/-- Each language once, in the order in which they first come, with the last text that is given for it. -/
def lastTexts (translations : Translations) : Translations :=
  groupedBy Prod.fst (fun locale given => given.getLastD (locale, "")) translations

/-- The message of a key that was found several times: all its places, of its remarks the last ones that
say something, and its last text in each language. -/
def Message.summary (key : String × Option String) (findings : List Message) : Message where
  id := key.1
  domain := key.2
  places := (findings.flatMap Message.places).eraseDups
  desc := lastRemark (findings.map Message.desc)
  meaning := lastRemark (findings.map Message.meaning)
  translations := lastTexts (findings.flatMap Message.translations)

/-- The messages of a history of findings, in the order in which they were first found. -/
def summaries (history : List Message) : List Message := groupedBy Message.key Message.summary history

/-- A further remark replaces the last one if it says something. -/
theorem lastRemark_concat {remarks : List (Option String)} (some_ : remarks ≠ []) (later : Option String) :
    lastRemark (remarks ++ [later]) = laterRemark (lastRemark remarks) later := by
  obtain ⟨first, rest, rfl⟩ := List.exists_cons_of_ne_nil some_
  cases later with
  | none => simp [lastRemark, laterRemark]
  | some text =>
    by_cases silent : text = ""
    · simp [lastRemark, laterRemark, silent, Option.filter]
    · simp [lastRemark, laterRemark, silent, Option.filter, List.filterMap_append]

theorem lastRemark_singleton (remark : Option String) : lastRemark [remark] = remark := by
  cases remark with
  | none => rfl
  | some text =>
    by_cases silent : text = "" <;> simp [lastRemark, silent, Option.filter]

/-- Translations put on top of each other leave the last text of each language. -/
theorem Translations.putAll_nil (translations : Translations) :
    Translations.putAll [] translations = lastTexts translations := by
  rw [putAll_eq_foldl]
  refine insertWith.foldl_nil_eq_groupedBy (fun locale own ofLocale => ?_) (fun _ _ => rfl)
    fun new own someOwn ofLocale => ?_
  · cases own using List.reverseRecOn with
    | nil => rfl
    | append_singleton front last => simpa using ofLocale last (by simp)
  · cases own using List.reverseRecOn with
    | nil => exact absurd rfl someOwn
    | append_singleton front last =>
      have same : last.1 = new.1 := ofLocale last (by simp)
      simp only [List.getLastD_concat, same]

theorem Message.foldl_addPlace_nil (places : List Place) :
    places.foldl addPlace [] = places.eraseDups := by
  induction places using List.reverseRecOn with
  | nil => rfl
  | append_singleton front last ih =>
    rw [List.foldl_append, ih, List.foldl_cons, List.foldl_nil, addPlace, eraseDups_concat]
    simp only [List.mem_eraseDups]

theorem eraseDups_of_nodup {α : Type} [DecidableEq α] {items : List α} (distinct : items.Nodup) :
    items.eraseDups = items := by
  induction items using List.reverseRecOn with
  | nil => rfl
  | append_singleton front last ih =>
    rw [List.nodup_append] at distinct
    have absent : last ∉ front := fun there => distinct.2.2 last there last (by simp) rfl
    rw [eraseDups_concat, if_neg absent, ih distinct.1]

namespace Message

/-- What a message that was found once comes to is that message. -/
theorem summary_singleton {message : Message} (places : message.places.Nodup)
    (distinct : message.HasDistinctLanguages) : summary message.key [message] = message := by
  have translations : lastTexts message.translations = message.translations := by
    rw [← Translations.putAll_nil, Translations.putAll_eq_foldl]
    exact insertWith.foldl_of_nodup distinct
  simp only [summary, List.flatMap_cons, List.flatMap_nil, List.append_nil, List.map_cons, List.map_nil,
    lastRemark_singleton, eraseDups_of_nodup places, translations, key]

/-- What several findings come to takes a further one in. -/
theorem absorb_summary (key : String × Option String) {findings : List Message} (some_ : findings ≠ [])
    (new : Message) : (summary key findings).absorb new = summary key (findings ++ [new]) := by
  have remarks (remark : Message → Option String) :
      laterRemark (lastRemark (findings.map remark)) (remark new)
        = lastRemark ((findings ++ [new]).map remark) := by
    rw [List.map_append, List.map_singleton, lastRemark_concat (by simpa using some_)]
  have places : new.places.foldl addPlace (findings.flatMap Message.places).eraseDups
      = ((findings ++ [new]).flatMap Message.places).eraseDups := by
    rw [← foldl_addPlace_nil, ← foldl_addPlace_nil, ← List.foldl_append, List.flatMap_append]
    simp
  have translations : (lastTexts (findings.flatMap Message.translations)).putAll new.translations
      = lastTexts ((findings ++ [new]).flatMap Message.translations) := by
    rw [← Translations.putAll_nil, ← Translations.putAll_nil, Translations.putAll, Translations.putAll,
      Translations.putAll, ← List.foldl_append, List.flatMap_append]
    simp
  simp only [absorb, summary, remarks Message.desc, remarks Message.meaning, places, translations]

end Message

/-- A catalogue to which messages were added one by one holds what they come to. -/
theorem Catalogue.messages_addAll_empty {history : List Message}
    (places : ∀ message ∈ history, message.places.Nodup)
    (languages : ∀ message ∈ history, message.HasDistinctLanguages) :
    (empty.addAll history).messages = summaries history := by
  rw [messages_addAll]
  exact insertWith.foldl_nil_eq_groupedBy (fun _ _ _ => rfl)
    (fun new member => Message.summary_singleton (places new member) (languages new member))
    fun new own someOwn _ => Message.absorb_summary new.key someOwn new

end FormHarvest
