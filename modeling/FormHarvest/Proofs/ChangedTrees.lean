import FormHarvest.Proofs.SearchedFolders

namespace FormHarvest.FileTree

/-- A tree in which no folder has a name twice. -/
inductive NamesOnce : FileTree → Prop
  | file (content : ByteArray) : NamesOnce (file content)
  | link (target : String) : NamesOnce (link target)
  | folder {entries : List (String × FileTree)} (distinct : (entries.map Prod.fst).Nodup)
      (parts : ∀ entry ∈ entries, NamesOnce entry.2) : NamesOnce (folder entries)

/-- A way on which nothing but folders stand, as far as there is anything. -/
def IsOpen (tree : FileTree) (way : List String) : Prop :=
  ∀ front, front <+: way → ∀ inner, tree.at? front = some inner → inner.isFolder = true

variable {tree inner new : FileTree} {entries : List (String × FileTree)} {name other : String}
  {way front back place : List String} {edit : Option FileTree → Option FileTree}

theorem exists_of_isFolder (isFolder : tree.isFolder = true) : ∃ entries, tree = folder entries := by
  cases tree with
  | folder entries => exact ⟨entries, rfl⟩
  | _ => cases isFolder

section Entries

theorem entry?_cons_self (rest : List (String × FileTree)) :
    entry? name (folder ((name, tree) :: rest)) = some tree := by
  simp [ entry?]

theorem entry?_cons_other (rest : List (String × FileTree)) (different : other ≠ name) :
    entry? name (folder ((other, tree) :: rest)) = entry? name (folder rest) := by
  simp [ entry?, different]

theorem entry?_eq_none (absent : name ∉ entries.map Prod.fst) : entry? name (folder entries) = none := by
  have none : entries.find? (·.1 == name) = none := by
    rw [List.find?_eq_none]
    exact fun entry member same => absent (List.mem_map.mpr ⟨entry, member, eq_of_beq same⟩)
  rw [ entry?, none, Option.map_none]

theorem entry?_changeEntry_other (different : other ≠ name) :
    entry? other (folder (changeEntry name edit entries)) = entry? other (folder entries) := by
  induction entries with
  | nil => cases new : edit none <;> simp [changeEntry, entry?, new, different.symm]
  | cons first rest ih =>
    obtain ⟨known, held⟩ := first
    rw [changeEntry]
    split
    · rename_i same
      subst same
      rw [ entry?_cons_other rest different.symm]
      cases new : edit (some held) with
      | none => rfl
      | some held => exact entry?_cons_other rest different.symm
    · by_cases same : known = other
      · subst same
        rw [ entry?_cons_self, entry?_cons_self]
      · rw [ entry?_cons_other _ same, entry?_cons_other _ same, ih]

/-- What is put in a folder is found there. -/
theorem entry?_changeEntry_of_some (given : ∀ old, (edit old).isSome = true) :
    entry? name (folder (changeEntry name edit entries)) = edit ( entry? name (folder entries)) := by
  induction entries with
  | nil =>
    obtain ⟨new, atEnd⟩ := Option.isSome_iff_exists.mp (given none)
    simp [changeEntry, entry?, atEnd]
  | cons first rest ih =>
    obtain ⟨known, held⟩ := first
    rw [changeEntry]
    split
    · rename_i same
      subst same
      obtain ⟨new, inPlace⟩ := Option.isSome_iff_exists.mp (given (some held))
      simp [ entry?, inPlace]
    · rename_i different
      rw [ entry?_cons_other _ different, entry?_cons_other _ different, ih]

/-- What is taken from a folder that has no name twice is not there any more. -/
theorem entry?_changeEntry_none (distinct : (entries.map Prod.fst).Nodup) :
    entry? name (folder (changeEntry name (fun _ => none) entries)) = none := by
  induction entries with
  | nil => rfl
  | cons first rest ih =>
    obtain ⟨known, held⟩ := first
    rw [List.map_cons, List.nodup_cons] at distinct
    rw [changeEntry]
    split
    · rename_i same
      subst same
      exact entry?_eq_none distinct.1
    · rename_i different
      rw [ entry?_cons_other _ different, ih distinct.2]

theorem mem_changeEntry {entry : String × FileTree} (member : entry ∈ changeEntry name edit entries) :
    entry ∈ entries ∨
      entry.1 = name ∧ ∃ old, edit old = some entry.2 ∧ ∀ tree, old = some tree → (name, tree) ∈ entries := by
  induction entries with
  | nil =>
    simp only [changeEntry, List.mem_map, Option.mem_toList] at member
    obtain ⟨new, atEnd, rfl⟩ := member
    exact .inr ⟨rfl, none, atEnd, nofun⟩
  | cons first rest ih =>
    obtain ⟨known, held⟩ := first
    rw [changeEntry] at member
    split at member
    · rename_i same
      subst same
      rcases List.mem_append.mp member with member | member
      · simp only [List.mem_map, Option.mem_toList] at member
        obtain ⟨new, inPlace, rfl⟩ := member
        exact .inr ⟨rfl, some held, inPlace, fun tree same => by cases same; exact .head _⟩
      · exact .inl (.tail _ member)
    · rcases List.mem_cons.mp member with rfl | member
      · exact .inl (.head _)
      · rcases ih member with member | ⟨named, old, new, held⟩
        · exact .inl (.tail _ member)
        · exact .inr ⟨named, old, new, fun tree same => .tail _ (held tree same)⟩

theorem mem_names_changeEntry (member : other ∈ (changeEntry name edit entries).map Prod.fst) :
    other ∈ entries.map Prod.fst ∨ other = name := by
  obtain ⟨entry, held, rfl⟩ := List.mem_map.mp member
  exact (mem_changeEntry held).imp List.mem_map_of_mem And.left

theorem nodup_changeEntry (distinct : (entries.map Prod.fst).Nodup) :
    ((changeEntry name edit entries).map Prod.fst).Nodup := by
  induction entries with
  | nil => cases new : edit none <;> simp [changeEntry, new]
  | cons first rest ih =>
    obtain ⟨known, held⟩ := first
    rw [List.map_cons, List.nodup_cons] at distinct
    rw [changeEntry]
    split
    · rename_i same
      subst same
      cases edit (some held) <;> simp_all
    · rename_i different
      rw [List.map_cons, List.nodup_cons]
      exact ⟨fun member => (mem_names_changeEntry member).elim distinct.1 different, ih distinct.2⟩

end Entries

section OpenWays

theorem isOpen_empty (way : List String) : empty.IsOpen way := by
  intro front _ inner there
  cases front <;> cases there
  rfl

theorem IsOpen.mono (isOpen : tree.IsOpen way) (inWay : front <+: way) : tree.IsOpen front :=
  fun inner further => isOpen inner (further.trans inWay)

theorem exists_folder_before (there : tree.at? way = some (folder entries)) (inWay : front <+: way) :
    ∃ entries, tree.at? front = some (folder entries) := by
  obtain ⟨back, rfl⟩ := inWay
  rcases eq_or_ne back [] with rfl | further
  · exact ⟨entries, by rwa [List.append_nil] at there⟩
  · exact exists_folder_of_at?_append further (there ▸ rfl)

/-- The way to a folder is open. -/
theorem isOpen_of_folder (there : tree.at? way = some (folder entries)) : tree.IsOpen way := by
  intro front inWay inner around
  obtain ⟨entries, same⟩ := exists_folder_before there inWay
  rw [around] at same
  cases same
  rfl

theorem IsOpen.exists_folder (isOpen : tree.IsOpen way) : ∃ entries, tree = folder entries :=
  exists_of_isFolder (isOpen [] List.nil_prefix tree rfl)

/-- At the end of an open way a folder stands, or is made when something is put there. -/
theorem IsOpen.exists_folder_getD (isOpen : tree.IsOpen way) :
    ∃ entries, (tree.at? way).getD empty = folder entries := by
  cases there : tree.at? way with
  | none => exact ⟨[], rfl⟩
  | some inner => exact exists_of_isFolder (isOpen way List.prefix_rfl inner there)

/-- What is behind the first name of an open way is open, where nothing is as well. -/
theorem IsOpen.tail (isOpen : (folder entries).IsOpen (name :: way)) :
    IsOpen (( entry? name (folder entries)).getD empty) way := by
  cases first : entry? name (folder entries) with
  | none => exact isOpen_empty way
  | some held =>
    intro front inWay inner there
    refine isOpen (name :: front) (List.cons_prefix_cons.mpr ⟨rfl, inWay⟩) inner ?_
    rw [at?, first]
    exact there

end OpenWays

section Ways

theorem change_cons_of_ne_nil (further : back ≠ []) :
    change edit (name :: back) (folder entries)
      = folder (changeEntry name (fun old => some (change edit back (old.getD empty))) entries) := by
  cases back with
  | nil => exact absurd rfl further
  | cons second rest => rfl

/-- What stands on an open way to a change is changed behind there; nothing is a folder that is made. -/
theorem at?_change_front (isOpen : tree.IsOpen front) (further : back ≠ []) :
    (tree.change edit (front ++ back)).at? front = some (((tree.at? front).getD empty).change edit back) := by
  induction front generalizing tree with
  | nil => rfl
  | cons name rest ih =>
    obtain ⟨entries, rfl⟩ := isOpen.exists_folder
    rw [List.cons_append, change_cons_of_ne_nil (List.append_ne_nil_of_right_ne_nil _ further), at?,
      entry?_changeEntry_of_some fun _ => rfl, Option.bind_some, ih isOpen.tail, at?]
    cases entry? name (folder entries) with
    | none => cases rest <;> rfl
    | some held => rfl

/-- A change is not seen on ways that lead elsewhere. -/
theorem at?_change_apart (notBehind : ¬way <+: place) (notBefore : ¬place <+: way) :
    (tree.change edit way).at? place = tree.at? place := by
  induction way generalizing tree place with
  | nil => exact absurd List.nil_prefix notBehind
  | cons name rest ih =>
    cases place with
    | nil => exact absurd List.nil_prefix notBefore
    | cons other place =>
      cases tree with
      | file content => cases rest <;> rfl
      | link target => cases rest <;> rfl
      | folder entries =>
        by_cases same : other = name
        · subst same
          rw [List.cons_prefix_cons, not_and] at notBehind notBefore
          have behind := notBehind rfl
          have before := notBefore rfl
          have further : rest ≠ [] := fun atEnd => behind (atEnd ▸ List.nil_prefix)
          rw [change_cons_of_ne_nil further, at?, at?, entry?_changeEntry_of_some fun _ => rfl, Option.bind_some,
            ih behind before]
          cases entry? other (folder entries) with
          | none =>
            cases place with
            | nil => exact absurd List.nil_prefix before
            | cons => rfl
          | some held => rfl
        · rw [at?, at?]
          cases rest with
          | nil => rw [change, entry?_changeEntry_other same]
          | cons second rest => rw [change_cons_of_ne_nil (List.cons_ne_nil _ _), entry?_changeEntry_other same]

theorem isFolder_change (further : way ≠ []) : (change edit way (folder entries)).isFolder = true := by
  match way, further with
  | [_], _ => rfl
  | _ :: _ :: _, _ => rfl

/-- A folder stays one when something is changed that it does not stand in. -/
theorem exists_folder_of_change (notBehind : ¬way <+: place) (there : tree.at? place = some (folder entries)) :
    ∃ entries, (tree.change edit way).at? place = some (folder entries) := by
  by_cases before : place <+: way
  · obtain ⟨back, rfl⟩ := before
    have further : back ≠ [] := by
      rintro rfl
      exact notBehind ((List.append_nil place).symm ▸ List.prefix_rfl)
    obtain ⟨inner, same⟩ : ∃ inner, change edit back (folder entries) = folder inner :=
      exists_of_isFolder (isFolder_change further)
    rw [at?_change_front (isOpen_of_folder there) further, there, Option.getD_some, same]
    exact ⟨inner, rfl⟩
  · rw [at?_change_apart notBehind before]
    exact ⟨entries, there⟩

/-- What is put at the end of a way through folders is found there. -/
theorem at?_put_self (isOpen : tree.IsOpen front) :
    (tree.put (front ++ [name]) new).at? (front ++ [name]) = some new := by
  rw [at?_append, put, at?_change_front isOpen (List.cons_ne_nil _ _), Option.bind_some]
  obtain ⟨entries, same⟩ := isOpen.exists_folder_getD
  rw [same, change, at?, entry?_changeEntry_of_some fun _ => rfl]
  rfl

end Ways

section Names

/-- A change that makes no name stand twice where none did. -/
def KeepsNames (edit : Option FileTree → Option FileTree) : Prop :=
  ∀ old new, edit old = some new → (∀ tree, old = some tree → tree.NamesOnce) → new.NamesOnce

theorem namesOnce_empty : empty.NamesOnce := .folder List.nodup_nil (List.forall_mem_nil _)

theorem namesOnce_changeEntry (once : (folder entries).NamesOnce) (keeps : KeepsNames edit) :
    (folder (changeEntry name edit entries)).NamesOnce := by
  cases once with
  | folder distinct parts =>
    refine .folder (nodup_changeEntry distinct) fun entry member => ?_
    rcases mem_changeEntry member with member | ⟨-, old, new, held⟩
    · exact parts entry member
    · exact keeps old entry.2 new fun tree same => parts _ (held tree same)

theorem NamesOnce.change (once : tree.NamesOnce) (keeps : KeepsNames edit) (way : List String) :
    (tree.change edit way).NamesOnce := by
  induction way generalizing tree with
  | nil =>
    rw [FileTree.change]
    cases new : edit (some tree) with
    | none => exact once
    | some inner => exact keeps _ _ new fun _ same => by cases same; exact once
  | cons name rest ih =>
    cases tree with
    | file content => cases rest <;> exact once
    | link target => cases rest <;> exact once
    | folder entries =>
      cases rest with
      | nil => exact namesOnce_changeEntry once keeps
      | cons second others =>
        refine namesOnce_changeEntry once fun old new made held => ?_
        cases made
        cases old with
        | none => exact ih namesOnce_empty
        | some inner => exact ih (held inner rfl)

theorem NamesOnce.put (once : tree.NamesOnce) (newOnce : new.NamesOnce) (way : List String) :
    (tree.put way new).NamesOnce :=
  once.change (fun _ _ same _ => by cases same; exact newOnce) way

theorem NamesOnce.remove (once : tree.NamesOnce) (way : List String) : (tree.remove way).NamesOnce :=
  once.change (fun _ _ same _ => by cases same) way

theorem NamesOnce.of_holds (once : tree.NamesOnce) (there : tree.entry? name = some inner) : inner.NamesOnce := by
  cases once with
  | folder distinct parts =>
    obtain ⟨entry, found, rfl⟩ := Option.map_eq_some_iff.mp there
    exact parts entry (List.mem_of_find?_eq_some found)
  | _ => cases there

theorem NamesOnce.at? (once : tree.NamesOnce) (there : tree.at? way = some inner) : inner.NamesOnce := by
  induction way generalizing tree with
  | nil =>
    cases there
    exact once
  | cons name rest ih =>
    obtain ⟨held, first, behind⟩ := Option.bind_eq_some_iff.mp there
    exact ih (once.of_holds first) behind

end Names

section Moves

theorem at?_remove_self (once : tree.NamesOnce) (isOpen : tree.IsOpen front) :
    (tree.remove (front ++ [name])).at? (front ++ [name]) = none := by
  rw [at?_append, remove, at?_change_front isOpen (List.cons_ne_nil _ _), Option.bind_some]
  cases there : tree.at? front with
  | none => rfl
  | some inner =>
    obtain ⟨entries, rfl⟩ := exists_of_isFolder (isOpen front List.prefix_rfl inner there)
    cases once.at? there with
    | folder distinct parts =>
      rw [Option.getD_some, change, at?, entry?_changeEntry_none distinct]
      rfl

/-- The way to a folder stays open when something is taken away. -/
theorem isOpen_remove (once : tree.NamesOnce) (there : tree.at? place = some (folder entries)) (way : List String) :
    (tree.remove way).IsOpen place := by
  intro front inPlace inner around
  obtain ⟨others, before⟩ := exists_folder_before there inPlace
  by_cases behind : way <+: front
  · rcases List.eq_nil_or_concat' way with rfl | ⟨folders, name, rfl⟩
    · exact isOpen_of_folder there front inPlace inner around
    · obtain ⟨back, rfl⟩ := behind
      have leads : folders <+: folders ++ [name] ++ back :=
        (List.prefix_append _ [name]).trans (List.prefix_append _ back)
      rw [at?_append, at?_remove_self once ((isOpen_of_folder before).mono leads)] at around
      cases around
  · obtain ⟨entries, same⟩ : ∃ entries, (tree.remove way).at? front = some (folder entries) :=
      exists_folder_of_change behind before
    cases around.symm.trans same
    rfl

/-- An open way stays open when something is put in another place, or a folder at its end. -/
theorem isOpen_put (isOpen : tree.IsOpen place) (kept : way <+: place → way = place ∧ new.isFolder = true) :
    (tree.put way new).IsOpen place := by
  intro front inPlace inner around
  by_cases behind : way <+: front
  · obtain ⟨rfl, folder⟩ := kept (behind.trans inPlace)
    obtain rfl := inPlace.eq_of_length_le behind.length_le
    rcases List.eq_nil_or_concat' front with rfl | ⟨folders, name, rfl⟩
    · cases around
      exact folder
    · cases around.symm.trans (at?_put_self (isOpen.mono (List.prefix_append _ _)))
      exact folder
  · by_cases before : front <+: way
    · obtain ⟨back, rfl⟩ := before
      have further : back ≠ [] := by
        rintro rfl
        exact behind ((List.append_nil front).symm ▸ List.prefix_rfl)
      have isOpenBefore := isOpen.mono inPlace
      obtain ⟨entries, same⟩ := isOpenBefore.exists_folder_getD
      rw [put, at?_change_front isOpenBefore further, same] at around
      cases around
      exact isFolder_change further
    · rw [put, at?_change_apart behind before] at around
      exact isOpen front inPlace inner around

end Moves

end FormHarvest.FileTree
