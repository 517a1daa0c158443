import FormHarvest.Files.FileSystem

namespace FormHarvest

namespace FileSystem

/-- Names that stand for nothing but themselves and are not too long. -/
def isPlain (name : String) : Bool :=
  name != ".." && name != "." && name != "" && name.utf8ByteSize ≤ maxNameSize

section Ways

variable {root : FileTree} {ending : WayEnd} {links : Nat} {here rest way : List String} {name : String}
  {entries : List (String × FileTree)}

theorem isPlain_iff :
    isPlain name = true ↔ name ≠ ".." ∧ name ≠ "." ∧ name ≠ "" ∧ ¬maxNameSize < name.utf8ByteSize := by
  simp [isPlain, and_assoc]

theorem wayFrom_cons_of_folder (plain : isPlain name = true) (noSlash : rest ≠ [""])
    (there : root.at? (here ++ [name]) = some (.folder entries)) :
    wayFrom root ending links here (name :: rest) = wayFrom root ending links (here ++ [name]) rest := by
  obtain ⟨notUp, notDot, notEmpty, short⟩ := isPlain_iff.mp plain
  rw [wayFrom]
  simp [notUp, notDot, notEmpty, noSlash, short, there]

theorem wayFrom_of_free (plain : isPlain name = true) (free : root.at? (here ++ [name]) = none) :
    wayFrom root ending links here [name] = .ok (here ++ [name]) := by
  obtain ⟨notUp, notDot, notEmpty, short⟩ := isPlain_iff.mp plain
  rw [wayFrom]
  simp [notUp, notDot, notEmpty, short, free]

theorem wayFrom_of_file {content : ByteArray} (plain : isPlain name = true)
    (there : root.at? (here ++ [name]) = some (.file content)) :
    wayFrom root ending links here [name] = .ok (here ++ [name]) := by
  obtain ⟨notUp, notDot, notEmpty, short⟩ := isPlain_iff.mp plain
  rw [wayFrom]
  simp [notUp, notDot, notEmpty, short, there]

theorem wayTo_of_wayFrom {system : FileSystem} {path : Path} (relative : path.isAbsolute = false)
    (noNul : path.text.toList.contains '\x00' = false) (short : path.text.utf8ByteSize < maxPathSize)
    (found : wayFrom system.root ending maxLinks system.current path.parts = .ok way) :
    system.wayTo ending path = .ok way := by
  simp only [wayTo, noNul, relative, Nat.not_le.mpr short]
  rw [if_neg Bool.false_ne_true, if_neg not_false, if_neg Bool.false_ne_true, found]
  rfl

end Ways

end FileSystem

/-- What is done second is done where the first has led, unless the first has failed. -/
theorem run_bind_stateM {ε σ α β : Type} (first : ExceptT ε (StateM σ) α) (second : α → ExceptT ε (StateM σ) β)
    (state : σ) :
    ExceptT.run (first >>= second) state =
      match first.run state with
      | (.ok value, after) => (second value).run after
      | (.error fault, after) => (.error fault, after) := by
  have unfolded : ExceptT.run (first >>= second) state
      = (ExceptT.bindCont second (first.run state).1 : StateM σ _) (first.run state).2 := rfl
  rw [unfolded]
  rcases first.run state with ⟨outcome, after⟩
  cases outcome <;> rfl

namespace FileAction

variable {system after : FileSystem} {path : Path} {way : List String}

theorem run_bind {α β : Type} (first : FileAction α) (second : α → FileAction β) (system : FileSystem) :
    (first >>= second).run system =
      match first.run system with
      | (.ok value, after) => (second value).run after
      | (.error fault, after) => (.error fault, after) := by
  rw [run_bind_stateM]
  rcases first.run system with ⟨_ | _, after⟩ <;> rfl

theorem run_tryCatch {α : Type} (first : FileAction α) (handle : FileFault → FileAction α) (system : FileSystem) :
    (tryCatch first handle).run system =
      match first.run system with
      | (.ok value, after) => (.ok value, after)
      | (.error fault, after) => (handle fault).run after := by
  change (first.run >>= fun outcome => _ : StateM FileSystem (Except FileFault α)) system = _
  simp only [bind, StateT.bind, ExceptT.run]
  rcases first system with ⟨outcome, after⟩
  cases outcome <;> rfl

theorem run_inspect {α : Type} (look : FileSystem → Except FileFault α) (system : FileSystem) :
    (inspect look).run system = (look system, system) := rfl

theorem run_inspect_bind {α β : Type} {look : FileSystem → Except FileFault α} {value : α}
    (seen : look system = .ok value) (next : α → FileAction β) :
    (inspect look >>= next).run system = (next value).run system := by
  rw [run_bind, run_inspect, seen]

theorem run_get_bind {α : Type} (next : FileSystem → FileAction α) (system : FileSystem) :
    (get >>= next).run system = (next system).run system := by
  rw [run_bind]
  rfl

section Folders

/-- Where something is already, no folder is made. -/
theorem run_makeFolder_of_taken (leads : system.wayTo .link path = .ok way)
    (taken : (system.root.at? way).isSome = true) :
    (makeFolder path).run system = (.error (.refused .taken path.text none), system) := by
  rw [makeFolder, run_inspect_bind leads, run_get_bind, if_pos taken]
  rfl

theorem run_makeFolder_of_free (leads : system.wayTo .link path = .ok way) (free : system.root.at? way = none) :
    (makeFolder path).run system = (.ok (), { system with root := system.root.put way .empty }) := by
  rw [makeFolder, run_inspect_bind leads, run_get_bind, if_neg (by simp [free])]
  rfl

theorem run_ensureFolders_of_made (made : (makeFolder path).run system = (.ok (), after)) :
    (ensureFolders path).run system = (.ok (), after) := by
  rw [ensureFolders, run_tryCatch, made]

/-- A folder that is there already is left as it is. -/
theorem run_ensureFolders_of_folder (leads : system.wayTo .link path = .ok way)
    (taken : (system.root.at? way).isSome = true) (isFolder : system.kind? path = .ok (some .folder)) :
    (ensureFolders path).run system = (.ok (), system) := by
  have looked : (kind? path).run system = (.ok (some .folder), system) := by rw [kind?, run_inspect, isFolder]
  rw [ensureFolders, run_tryCatch, run_makeFolder_of_taken leads taken]
  simp [FileFault.isRefusal, run_bind, looked]
  rfl

end Folders

section Files

variable {content : ByteArray} {entries : List (String × FileTree)}

theorem run_write_of_free (leads : system.wayTo .newFile path = .ok way) (free : system.root.at? way = none) :
    (write path content).run system = (.ok (), { system with root := system.root.put way (.file content) }) := by
  rw [write, run_inspect_bind leads, run_get_bind, free]
  rfl

/-- Nothing is written where a folder is. -/
theorem run_write_of_folder (leads : system.wayTo .newFile path = .ok way)
    (isFolder : system.root.at? way = some (.folder entries)) :
    (write path content).run system = (.error (.refused .isFolder path.text none), system) := by
  rw [write, run_inspect_bind leads, run_get_bind, isFolder]
  rfl

theorem run_writeWithFolders (folders : (ensureFolders path.parent).run system = (.ok (), after)) :
    (writeWithFolders path content).run system = (write path content).run after := by
  rw [writeWithFolders, run_bind, folders]

end Files

end FileAction

end FormHarvest
