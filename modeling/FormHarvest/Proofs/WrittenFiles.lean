import FormHarvest.Proofs.ChangedTrees
import FormHarvest.Proofs.FileActions

namespace FormHarvest

namespace FileTree

/-- Whether a file can be written at the end of a way: the folders around it are real, and there is neither a folder
nor a link. -/
structure TakesFile (root : FileTree) (way : List String) : Prop where
  around : root.IsOpen way.dropLast
  named : way ≠ []
  noLink : ∀ target, root.at? way ≠ some (link target)
  noFolder : ∀ entries, root.at? way ≠ some (folder entries)

namespace TakesFile

variable {root : FileTree} {way place : List String} {content : ByteArray} {entries : List (String × FileTree)}
  {target : String}

theorem at?_self (takes : root.TakesFile way) (content : ByteArray) :
    (root.put way (file content)).at? way = some (file content) := by
  rw [← List.dropLast_append_getLast takes.named]
  exact at?_put_self takes.around

theorem at?_folder (takes : root.TakesFile way) (there : root.at? place = some (folder entries)) :
    ∃ entries, (root.put way (file content)).at? place = some (folder entries) := by
  refine exists_folder_of_change (fun behind => ?_) there
  obtain ⟨entries, same⟩ := exists_folder_before there behind
  exact takes.noFolder entries same

/-- No link stands before the file or behind it. -/
theorem at?_link (takes : root.TakesFile way) (there : root.at? place = some (link target)) :
    (root.put way (file content)).at? place = some (link target) := by
  have notBehind : ¬way <+: place := by
    rintro ⟨back, rfl⟩
    rcases eq_or_ne back [] with rfl | further
    · rw [List.append_nil] at there
      exact takes.noLink target there
    · obtain ⟨entries, same⟩ := exists_folder_of_at?_append further (Option.isSome_of_eq_some there)
      exact takes.noFolder entries same
  have notBefore : ¬place <+: way := by
    rintro ⟨back, rfl⟩
    have further : back ≠ [] := by
      rintro rfl
      exact takes.noLink target (by rwa [List.append_nil])
    have around := takes.around
    rw [List.dropLast_append_of_ne_nil further] at around
    cases around place (List.prefix_append _ _) _ there
  exact (at?_change_apart notBehind notBefore).trans there

end TakesFile

end FileTree

namespace FileSystem

open FileTree

variable {root : FileTree} {links : Nat} {here names way : List String}

theorem isPlain_of {name : String} (down : name ≠ "..") (filled : ¬(name = "." || name = "") = true)
    (short : ¬maxNameSize < name.utf8ByteSize) : isPlain name = true := by
  rw [Bool.or_eq_true, decide_eq_true_eq, decide_eq_true_eq, not_or] at filled
  exact isPlain_iff.mpr ⟨down, filled.1, filled.2, short⟩

/-- A link is followed to what it leads to. -/
theorem wayFrom_cons_of_link {name target : String} {rest : List String} (plain : isPlain name = true)
    (there : root.at? (here ++ [name]) = some (.link target)) :
    wayFrom root .target (links + 1) here (name :: rest)
      = wayFrom root .target links (if (Path.ofText target).isAbsolute then [] else here)
          (namesOfLink target ++ rest) := by
  obtain ⟨notUp, notDot, notEmpty, short⟩ := isPlain_iff.mp plain
  rw [wayFrom]
  simp [notUp, notDot, notEmpty, short, there]

theorem isOpen_start (isOpen : root.IsOpen here) (absolute : Bool) :
    root.IsOpen (if absolute = true then [] else here) := by
  cases absolute
  · exact isOpen
  · exact isOpen.mono List.nil_prefix

/-- A way on which links are followed ends where the folders around are real, and not at a link. -/
theorem wayFrom_ends (isOpen : root.IsOpen here) (leads : wayFrom root .newFile links here names = .ok way) :
    root.IsOpen way.dropLast ∧ ∀ target, root.at? way ≠ some (.link target) := by
  generalize followed : WayEnd.newFile = ending at leads
  fun_induction wayFrom root ending links here names with
  | case1 links here =>
    cases leads
    refine ⟨isOpen.mono way.dropLast_prefix, fun target link => ?_⟩
    cases isOpen way List.prefix_rfl _ link
  | case2 links here rest ih => exact ih (isOpen.mono here.dropLast_prefix) leads
  | case3 links here name rest down silent ih => exact ih isOpen leads
  | case6 links here name rest _ _ _ _ there atName =>
    obtain rfl : here ++ [name] = way := Except.ok.inj leads
    rw [List.dropLast_concat]
    refine ⟨isOpen, fun target link => ?_⟩
    cases link.symm.trans atName
  | case8 links here name rest _ _ _ _ there entries atName ih => exact ih (isOpen_of_folder atName) leads
  | case9 links here name rest _ _ _ _ there content atName =>
    obtain rfl : here ++ [name] = way := Except.ok.inj leads
    rw [List.dropLast_concat]
    refine ⟨isOpen, fun target link => ?_⟩
    cases link.symm.trans atName
  | case11 links here name rest _ _ _ _ _ _ _ atEnd =>
    subst followed
    simp at atEnd
  | case13 here name rest _ _ _ _ there target link _ links start ih => exact ih (isOpen_start isOpen _) leads
  | _ => cases leads

/-- A way that leads to where a file is written leads there when the file is: nothing else on it changes. -/
theorem wayFrom_put {content : ByteArray} (takes : root.TakesFile way)
    (leads : wayFrom root .newFile links here names = .ok way) :
    wayFrom (root.put way (.file content)) .target links here names = .ok way := by
  generalize followed : WayEnd.newFile = ending at leads
  fun_induction wayFrom root ending links here names with
  | case1 links here =>
    rw [wayFrom]
    exact leads
  | case2 links here rest ih =>
    rw [wayFrom, if_pos rfl]
    exact ih leads
  | case3 links here name rest down silent ih =>
    rw [wayFrom, if_neg down, if_pos silent]
    exact ih leads
  | case6 links here name rest down filled _ short there atName atEnd =>
    obtain rfl : here ++ [name] = way := Except.ok.inj leads
    obtain rfl := List.isEmpty_iff.mp atEnd
    exact wayFrom_of_file (isPlain_of down filled short) (takes.at?_self content)
  | case8 links here name rest down filled noSlash short there entries atName ih =>
    obtain ⟨others, stays⟩ := takes.at?_folder atName
    rw [wayFrom_cons_of_folder (isPlain_of down filled short) (fun same => noSlash ⟨followed.symm, same⟩) stays]
    exact ih leads
  | case9 links here name rest down filled _ short there content' atName atEnd =>
    obtain rfl : here ++ [name] = way := Except.ok.inj leads
    obtain rfl := List.isEmpty_iff.mp atEnd
    exact wayFrom_of_file (isPlain_of down filled short) (takes.at?_self content)
  | case11 links here name rest _ _ _ _ _ _ _ atEnd =>
    subst followed
    simp at atEnd
  | case13 here name rest down filled _ short there target link notEnd links start ih =>
    rw [wayFrom_cons_of_link (isPlain_of down filled short) (takes.at?_link link)]
    exact ih leads
  | _ => cases leads

variable {system : FileSystem} {path : Path} {content : ByteArray}

/-- A file system whose current folder is one, in which no folder has a name twice. -/
structure IsSound (system : FileSystem) : Prop where
  once : system.root.NamesOnce
  current : ∃ entries, system.root.at? system.current = some (.folder entries)

theorem wayTo_eq_ok_iff {ending : WayEnd} : system.wayTo ending path = .ok way ↔
    path.text.toList.contains '\x00' = false ∧ path.text.utf8ByteSize < maxPathSize ∧
      wayFrom system.root ending maxLinks (system.startOf path) path.parts = .ok way := by
  have mapped {outcome : Except FileCause (List String)} :
      outcome.mapError (FileFault.refused · path.text none) = .ok way ↔ outcome = .ok way := by
    cases outcome <;> simp [Except.mapError]
  unfold wayTo
  dsimp only
  rw [← startOf]
  split_ifs with nul long
  · exact iff_of_false nofun fun whole => nomatch nul.symm.trans whole.1
  · exact iff_of_false nofun fun whole => absurd whole.2.1 (Nat.not_lt.mpr long)
  · rw [mapped, and_iff_right (Bool.of_not_eq_true nul), and_iff_right (Nat.lt_of_not_le long)]

end FileSystem

namespace FileAction

open FileSystem FileTree

variable {system after : FileSystem} {path : Path} {content : ByteArray}

/-- What is written is put at the end of the way, where no folder is. -/
theorem write_eq_ok (run : (write path content).run system = (.ok (), after)) :
    ∃ way, system.wayTo .newFile path = .ok way ∧ (∀ entries, system.root.at? way ≠ some (.folder entries)) ∧
      after = { system with root := system.root.put way (.file content) } := by
  rw [write, run_bind, run_inspect] at run
  cases leads : system.wayTo .newFile path with
  | error fault =>
    rw [leads] at run
    cases run
  | ok way =>
    simp only [leads, run_get_bind] at run
    refine ⟨way, rfl, ?_⟩
    split at run
    · cases run
    · rename_i noFolder
      cases run
      exact ⟨noFolder, rfl⟩

/-- What is written can be read. -/
theorem read_of_write (isOpen : system.root.IsOpen system.current)
    (run : (write path content).run system = (.ok (), after)) : after.read path = .ok content := by
  obtain ⟨way, leads, noFolder, rfl⟩ := write_eq_ok run
  obtain ⟨noNul, short, leads⟩ := wayTo_eq_ok_iff.mp leads
  obtain ⟨around, noLink⟩ := wayFrom_ends (isOpen_start isOpen path.isAbsolute) leads
  have named : way ≠ [] := by
    rintro rfl
    obtain ⟨entries, root⟩ := isOpen.exists_folder
    exact noFolder entries (congrArg some root)
  have takes : system.root.TakesFile way := ⟨around, named, noLink, noFolder⟩
  have found : FileSystem.wayTo { system with root := system.root.put way (.file content) } .target path = .ok way :=
    wayTo_eq_ok_iff.mpr ⟨noNul, short, wayFrom_put takes leads⟩
  rw [FileSystem.read, found]
  simp [bind, Except.bind, takes.at?_self]

section Sound

/-- Whether something that is done with files leaves them sound, however it ends. -/
def Keeps {α : Type} (action : FileAction α) : Prop :=
  ∀ system : FileSystem, system.IsSound → (action.run system).2.IsSound

variable {α β : Type} {first : FileAction α} {second : α → FileAction β} {handle : FileFault → FileAction α}
  {way : List String}

theorem keeps_inspect (look : FileSystem → Except FileFault α) : Keeps (inspect look) := fun _ sound => sound

theorem keeps_throw (fault : FileFault) : Keeps (throw fault : FileAction α) := fun _ sound => sound

theorem keeps_pure (value : α) : Keeps (pure value : FileAction α) := fun _ sound => sound

theorem Keeps.bind (keepsFirst : Keeps first) (keepsSecond : ∀ value, Keeps (second value)) :
    Keeps (first >>= second) := by
  intro system sound
  have middle := keepsFirst system sound
  rw [run_bind]
  rcases run : first.run system with ⟨_ | value, after⟩ <;> rw [run] at middle
  · exact middle
  · exact keepsSecond value after middle

theorem Keeps.tryCatch (keeps : Keeps first) (keepsHandled : ∀ fault, Keeps (handle fault)) :
    Keeps (tryCatch first handle) := by
  intro system sound
  have middle := keeps system sound
  rw [run_tryCatch]
  rcases run : first.run system with ⟨fault | value, after⟩ <;> rw [run] at middle
  · exact keepsHandled fault after middle
  · exact middle

theorem keeps_makeFolder (path : Path) : Keeps (makeFolder path) := by
  refine (keeps_inspect _).bind fun way system sound => ?_
  rw [run_get_bind]
  split
  · exact sound
  · rename_i free
    obtain ⟨entries, current⟩ := sound.current
    refine ⟨sound.once.put namesOnce_empty way, exists_folder_of_change (fun behind => free ?_) current⟩
    obtain ⟨others, there⟩ := exists_folder_before current behind
    exact Option.isSome_of_eq_some there

theorem keeps_kind? (path : Path) : Keeps (kind? path) := keeps_inspect _

/-- A fault is passed on unless the folder is there already. -/
theorem keeps_unlessFolder (path : Path) (fault : FileFault) :
    Keeps (do if (← kind? path) != some .folder then throw fault) := by
  refine (keeps_kind? path).bind fun kind => ?_
  split
  · exact keeps_throw fault
  · exact keeps_pure ()

theorem keeps_ensureFolder (path : Path) : Keeps (ensureFolder path) := by
  refine (keeps_makeFolder path).tryCatch fun fault => ?_
  split
  · exact keeps_throw fault
  · exact keeps_unlessFolder path fault

theorem keeps_ensureFolders (path : Path) : Keeps (ensureFolders path) := by
  rw [ensureFolders]
  refine (keeps_makeFolder path).tryCatch fun fault => ?_
  split
  · split
    · exact keeps_throw fault
    · exact (keeps_ensureFolders path.parent).bind fun _ => keeps_ensureFolder path
  · split
    · exact keeps_throw fault
    · exact keeps_unlessFolder path fault
termination_by path.parts.length
decreasing_by
  rename_i named
  simp only [Path.parent, List.length_dropLast]
  have := List.length_pos_iff.mpr named
  omega

theorem keeps_remove (path : Path) : Keeps (remove path) := by
  refine (keeps_inspect _).bind fun way system sound => ?_
  rw [run_get_bind]
  split
  · exact sound
  · exact sound
  · rename_i noFolder there
    obtain ⟨entries, current⟩ := sound.current
    refine ⟨sound.once.remove way, exists_folder_of_change (fun behind => ?_) current⟩
    obtain ⟨others, folder⟩ := exists_folder_before current behind
    exact noFolder others (Option.some.inj (there.symm.trans folder))

/-- What is moved may be the current folder, or one around it. Then nothing stands there any more, and nothing that is
no folder takes its place. -/
theorem isOpen_move (sound : system.IsSound) (source goal : List String) {moved : FileTree}
    (taken : ∀ entries, system.root.at? goal = some (.folder entries) → entries = [] ∧ moved.isFolder = true) :
    ((system.root.remove source).put goal moved).IsOpen system.current := by
  obtain ⟨entries, current⟩ := sound.current
  refine isOpen_put (isOpen_remove sound.once current source) ?_
  rintro ⟨back, further⟩
  obtain ⟨others, folder⟩ := exists_folder_before current ⟨back, further⟩
  obtain ⟨rfl, moved⟩ := taken others folder
  refine ⟨?_, moved⟩
  rw [← further, at?_append, folder] at current
  cases back with
  | nil => rw [← further, List.append_nil]
  | cons name rest => cases current

/-- Whether something that is done with files leaves the way to the current folder open. -/
def LeavesOpen (action : FileAction α) (system : FileSystem) : Prop :=
  (action.run system).2.root.IsOpen (action.run system).2.current

theorem leavesOpen_bind (isOpen : system.root.IsOpen system.current) (looks : (first.run system).2 = system)
    (leavesOpen : ∀ value, LeavesOpen (second value) system) : LeavesOpen (first >>= second) system := by
  rw [LeavesOpen, run_bind]
  rcases run : first.run system with ⟨fault | value, after⟩ <;> rw [run] at looks <;> cases looks
  · exact isOpen
  · exact leavesOpen value

theorem looks_of_handled {look : FileSystem → Except FileFault α}
    (handled : ∀ fault, ((handle fault).run system).2 = system) :
    ((tryCatch (inspect look) handle).run system).2 = system := by
  rw [run_tryCatch, run_inspect]
  cases look system with
  | ok value => rfl
  | error fault => exact handled fault

theorem leavesOpen_move (sound : system.IsSound) (path target : Path) : LeavesOpen (move path target) system := by
  obtain ⟨entries, current⟩ := sound.current
  have isOpen := isOpen_of_folder current
  unfold move
  dsimp only
  split
  · exact isOpen
  refine leavesOpen_bind isOpen (looks_of_handled fun fault => by cases fault <;> rfl) fun source => ?_
  refine leavesOpen_bind isOpen (looks_of_handled fun fault => by cases fault <;> rfl) fun goal => ?_
  rw [LeavesOpen, run_get_bind]
  split
  case h_3 atGoal =>
    refine isOpen_move sound source goal fun _ there => ?_
    cases atGoal.symm.trans there
    exact ⟨rfl, rfl⟩
  case h_4 atGoal => exact isOpen_move sound source goal fun _ there => nomatch atGoal.symm.trans there
  case h_7 noFolder => exact isOpen_move sound source goal fun entries there => (noFolder entries there).elim
  all_goals exact isOpen

end Sound

end FileAction

end FormHarvest
