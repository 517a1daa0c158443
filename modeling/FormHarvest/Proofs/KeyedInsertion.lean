import FormHarvest.Proofs.CatalogueInvariant

namespace FormHarvest

/-- A list with a new item: combined with the first item of the same key, or at the end. -/
def insertWith {α κ : Type} [DecidableEq κ] (key : α → κ) (combine : α → α → α) (new : α) :
    List α → List α
  | [] => [new]
  | old :: rest =>
    if key old = key new then combine old new :: rest else old :: insertWith key combine new rest

namespace insertWith

variable {α κ : Type} [DecidableEq κ] {key : α → κ} {combine : α → α → α} {good : α → Prop}

theorem key_mem (sameKey : ∀ old new, key (combine old new) = key old) {new : α} {known : κ}
    {items : List α} :
    known ∈ (insertWith key combine new items).map key ↔ known = key new ∨ known ∈ items.map key := by
  induction items with
  | nil => simp [insertWith]
  | cons first rest ih =>
    simp only [insertWith]
    split
    · rename_i same
      simp only [List.map_cons, List.mem_cons, sameKey, same, or_self_left]
    · simp only [List.map_cons, List.mem_cons, ih, or_left_comm]

/-- An item whose key is not there yet comes at the end. -/
theorem of_new {new : α} {items : List α} (absent : key new ∉ items.map key) :
    insertWith key combine new items = items ++ [new] := by
  induction items with
  | nil => rfl
  | cons first rest ih =>
    rw [List.map_cons, List.mem_cons, not_or] at absent
    rw [insertWith, if_neg fun same => absent.1 same.symm, ih absent.2, List.cons_append]

theorem nodup_keys (sameKey : ∀ old new, key (combine old new) = key old) {new : α} {items : List α}
    (distinct : (items.map key).Nodup) : ((insertWith key combine new items).map key).Nodup := by
  induction items with
  | nil => simp [insertWith]
  | cons first rest ih =>
    rw [List.map_cons, List.nodup_cons] at distinct
    rw [insertWith]
    split
    · rw [List.map_cons, sameKey, List.nodup_cons]
      exact distinct
    · rename_i differ
      rw [List.map_cons, List.nodup_cons, key_mem sameKey, not_or]
      exact ⟨⟨differ, distinct.1⟩, ih distinct.2⟩

theorem nodup_keys_foldl (sameKey : ∀ old new, key (combine old new) = key old) {others items : List α}
    (distinct : (items.map key).Nodup) :
    ((others.foldl (fun all other => insertWith key combine other all) items).map key).Nodup := by
  induction others generalizing items with
  | nil => exact distinct
  | cons other rest ih => exact ih (nodup_keys sameKey distinct)

/-- Items with keys that differ from each other and from those that are there come one after the
other. -/
theorem foldl_of_nodup {others items : List α} (distinct : ((items ++ others).map key).Nodup) :
    others.foldl (fun all other => insertWith key combine other all) items = items ++ others := by
  induction others generalizing items with
  | nil => exact (List.append_nil _).symm
  | cons other rest ih =>
    have parts : items ++ other :: rest = (items ++ [other]) ++ rest := by simp
    have absent : key other ∉ items.map key := by
      rw [List.map_append, List.nodup_append] at distinct
      exact fun there => distinct.2.2 _ there _ List.mem_cons_self rfl
    rw [List.foldl_cons, of_new absent, parts]
    exact ih (parts ▸ distinct)

/-- An item whose key is known may come before or after one with another key. -/
theorem comm (sameKey : ∀ old new, key (combine old new) = key old) {first second : α}
    (differ : key first ≠ key second) {items : List α} (known : key first ∈ items.map key) :
    insertWith key combine first (insertWith key combine second items)
      = insertWith key combine second (insertWith key combine first items) := by
  induction items with
  | nil => cases known
  | cons item rest ih =>
    by_cases atFirst : key item = key first
    · have notSecond : key item ≠ key second := fun same => differ (atFirst.symm.trans same)
      simp only [insertWith, if_pos atFirst, if_neg notSecond, sameKey]
    · have inRest : key first ∈ rest.map key :=
        (List.mem_cons.mp known).resolve_left fun same => atFirst same.symm
      by_cases atSecond : key item = key second
      · simp only [insertWith, if_pos atSecond, if_neg atFirst, sameKey]
      · simp only [insertWith, if_neg atFirst, if_neg atSecond, ih inRest]

/-- Two items of one key may be combined before they are inserted. -/
theorem combined (sameKey : ∀ old new, key (combine old new) = key old)
    (assoc : ∀ a b c, good b → combine (combine a b) c = combine a (combine b c))
    {old new : α} (same : key old = key new) (fine : good old) (items : List α) :
    insertWith key combine new (insertWith key combine old items)
      = insertWith key combine (combine old new) items := by
  induction items with
  | nil => simp only [insertWith, if_pos same]
  | cons item rest ih =>
    by_cases atOld : key item = key old
    · have atNew : key item = key new := atOld.trans same
      simp only [insertWith, if_pos atOld, if_pos atNew, sameKey, assoc item old new fine]
    · have notNew : key item ≠ key new := fun there => atOld (there.trans same.symm)
      simp only [insertWith, if_neg atOld, if_neg notNew, sameKey, ih]

/-- An item whose key is known and comes no more may be inserted first. -/
theorem foldl_comm (sameKey : ∀ old new, key (combine old new) = key old) {new : α}
    {others : List α} (absent : key new ∉ others.map key) {items : List α}
    (known : key new ∈ items.map key) :
    insertWith key combine new (others.foldl (fun all other => insertWith key combine other all) items)
      = others.foldl (fun all other => insertWith key combine other all)
          (insertWith key combine new items) := by
  induction others generalizing items with
  | nil => rfl
  | cons other rest ih =>
    simp only [List.map_cons, List.mem_cons, not_or] at absent
    have later : key new ∈ (insertWith key combine other items).map key :=
      (key_mem sameKey).mpr (.inr known)
    rw [List.foldl_cons, List.foldl_cons, ih absent.2 later, comm sameKey absent.1 known]

/-- Inserting all items of a list with a new one in it is inserting the items of the list and then
the new one. -/
theorem foldl_insertWith (sameKey : ∀ old new, key (combine old new) = key old)
    (assoc : ∀ a b c, good b → combine (combine a b) c = combine a (combine b c))
    {others : List α} (distinct : (others.map key).Nodup) (fine : ∀ other ∈ others, good other)
    (new : α) (items : List α) :
    (insertWith key combine new others).foldl (fun all other => insertWith key combine other all) items
      = insertWith key combine new
          (others.foldl (fun all other => insertWith key combine other all) items) := by
  induction others generalizing items with
  | nil => rfl
  | cons other rest ih =>
    rw [List.map_cons, List.nodup_cons] at distinct
    by_cases same : key other = key new
    · have known : key new ∈ (insertWith key combine other items).map key :=
        (key_mem sameKey).mpr (.inl same.symm)
      rw [insertWith, if_pos same, List.foldl_cons, List.foldl_cons,
        foldl_comm sameKey (same ▸ distinct.1) known,
        combined sameKey assoc same (fine other List.mem_cons_self)]
    · rw [insertWith, if_neg same, List.foldl_cons, List.foldl_cons,
        ih distinct.2 fun item member => fine item (.tail _ member)]

end insertWith

namespace Translations

theorem put_eq_insertWith (locale text : String) (translations : Translations) :
    put locale text translations
      = insertWith Prod.fst (fun old new => (old.1, new.2)) (locale, text) translations := by
  induction translations with
  | nil => rfl
  | cons first rest ih => simp only [put, insertWith, ih]

theorem putAll_eq_foldl (translations others : Translations) :
    translations.putAll others = others.foldl
      (fun all other => insertWith Prod.fst (fun old new => (old.1, new.2)) other all) translations := by
  simp only [putAll, put_eq_insertWith]

theorem nodup_keys_putAll {translations : Translations} (others : Translations)
    (distinct : (translations.map Prod.fst).Nodup) :
    ((translations.putAll others).map Prod.fst).Nodup := by
  induction others generalizing translations with
  | nil => exact distinct
  | cons other rest ih => exact ih (nodup_keys_put other.1 other.2 translations distinct)

/-- Translations put on top of each other in any grouping are the same, in the same order. -/
theorem putAll_putAll (first : Translations) {second : Translations} (third : Translations)
    (distinct : (second.map Prod.fst).Nodup) :
    (first.putAll second).putAll third = first.putAll (second.putAll third) := by
  induction third generalizing second with
  | nil => rfl
  | cons entry rest ih =>
    have onTop : (first.putAll second).put entry.1 entry.2
        = first.putAll (second.put entry.1 entry.2) := by
      rw [put_eq_insertWith, put_eq_insertWith, putAll_eq_foldl, putAll_eq_foldl]
      have sameKey (old new : String × String) : Prod.fst (old.1, new.2) = Prod.fst old := rfl
      have assoc (a b c : String × String) (_ : True) : ((a.1, b.2).1, c.2) = (a.1, (b.1, c.2).2) := rfl
      exact (insertWith.foldl_insertWith sameKey assoc distinct (fun _ _ => trivial) entry first).symm
    show ((first.putAll second).put entry.1 entry.2).putAll rest
      = first.putAll ((second.put entry.1 entry.2).putAll rest)
    rw [onTop, ih (nodup_keys_put entry.1 entry.2 second distinct)]

end Translations

theorem laterRemark_assoc (first second third : Option String) :
    laterRemark (laterRemark first second) third = laterRemark first (laterRemark second third) := by
  cases third with
  | none => rfl
  | some text =>
    by_cases silent : text = ""
    · simp only [laterRemark, if_pos silent]
    · simp only [laterRemark, if_neg silent]

namespace Message

theorem mem_foldl_addPlace {places known : List Place} {place : Place} :
    place ∈ places.foldl addPlace known ↔ place ∈ known ∨ place ∈ places := by
  induction places generalizing known with
  | nil => simp
  | cons first rest ih => rw [List.foldl_cons, ih, mem_addPlace, List.mem_cons, or_assoc]

theorem foldl_addPlace_addPlace (known places : List Place) (place : Place) :
    (addPlace places place).foldl addPlace known = addPlace (places.foldl addPlace known) place := by
  by_cases there : place ∈ places
  · have known' : place ∈ places.foldl addPlace known := mem_foldl_addPlace.mpr (.inr there)
    simp only [addPlace, if_pos there, if_pos known']
  · rw [addPlace, if_neg there, List.foldl_append]
    rfl

/-- Places added to each other in any grouping are the same, in the same order. -/
theorem foldl_addPlace_foldl (known places others : List Place) :
    (others.foldl addPlace places).foldl addPlace known
      = others.foldl addPlace (places.foldl addPlace known) := by
  induction others generalizing places with
  | nil => rfl
  | cons other rest ih => rw [List.foldl_cons, List.foldl_cons, ih, foldl_addPlace_addPlace]

/-- A message has one translation at most for each language. -/
def HasDistinctLanguages (message : Message) : Prop := (message.translations.map Prod.fst).Nodup

theorem HasDistinctLanguages.absorb {message : Message} (distinct : message.HasDistinctLanguages)
    (other : Message) : (message.absorb other).HasDistinctLanguages :=
  Translations.nodup_keys_putAll other.translations distinct

theorem absorb_absorb (first : Message) {second : Message} (third : Message)
    (distinct : second.HasDistinctLanguages) :
    (first.absorb second).absorb third = first.absorb (second.absorb third) := by
  simp only [absorb, foldl_addPlace_foldl, laterRemark_assoc,
    Translations.putAll_putAll first.translations third.translations distinct]

end Message

theorem insertMessage_eq_insertWith (new : Message) (messages : List Message) :
    insertMessage new messages = insertWith Message.key Message.absorb new messages := by
  induction messages with
  | nil => rfl
  | cons first rest ih => simp only [insertMessage, insertWith, ih]

end FormHarvest
