import FormHarvest.Files.Fault
import FormHarvest.Files.FileTree
import FormHarvest.Files.Path

namespace FormHarvest

/-- A file system with its current folder. -/
structure FileSystem where
  root : FileTree
  current : List String
deriving Inhabited

namespace FileSystem

/-- The longest name of a file, in bytes. -/
def maxNameSize : Nat := 255

/-- One more than the longest path, in bytes. -/
def maxPathSize : Nat := 4096

/-- How many links are followed on one way. -/
def maxLinks : Nat := 40

/-- What a link at the end of a way stands for: the link itself, what it leads to, or a file that is
to be written there. -/
inductive WayEnd where
  | link
  | target
  | newFile
deriving DecidableEq

/-- The names that a link leads along. A single dot or a slash at its end asks for a folder, and stays
as a last name that is a dot or empty. -/
def namesOfLink (target : String) : List String :=
  (Path.ofText target).parts ++
    match target.toList.reverse with
    | '/' :: _ => [""]
    | '.' :: '/' :: _ => ["."]
    | _ => []

/-- The way through real folders to where names lead, given the real way so far. The last name need
not exist. A file is not written where a folder is asked for. -/
def wayFrom (root : FileTree) (ending : WayEnd) (links : Nat) (here : List String)
    (names : List String) : Except FileCause (List String) :=
  match names with
  | [] => .ok here
  | name :: rest =>
    if name = ".." then wayFrom root ending links here.dropLast rest
    else if name = "." || name = "" then wayFrom root ending links here rest
    else if ending = .newFile ∧ rest = [""] then .error .isFolder
    else if maxNameSize < name.utf8ByteSize then .error .nameTooLong
    else
      let there := here ++ [name]
      match root.at? there with
      | none => if rest.isEmpty then .ok there else .error .notFound
      | some (.folder _) => wayFrom root ending links there rest
      | some (.file _) => if rest.isEmpty then .ok there else .error .notFolder
      | some (.link target) =>
        if rest.isEmpty && ending = .link then .ok there
        else
          match links with
          | 0 => .error .tooManyLinks
          | links + 1 =>
            let start := if (Path.ofText target).isAbsolute then [] else here
            wayFrom root ending links start (namesOfLink target ++ rest)
termination_by (links, names.length)

/-- The way to a path through real folders. -/
def wayTo (system : FileSystem) (ending : WayEnd) (path : Path) : Except FileFault (List String) :=
  let text := path.text
  if text.toList.contains '\x00' then .error .nulInName
  else if maxPathSize ≤ text.utf8ByteSize then .error (.refused .nameTooLong text none)
  else
    let start := if path.isAbsolute then [] else system.current
    (wayFrom system.root ending maxLinks start path.parts).mapError (.refused · text none)

/-- What a path leads to, links followed: none when nothing is there. A name that is too long is
refused all the same. -/
def kind? (system : FileSystem) (path : Path) : Except FileFault (Option FileKind) :=
  match system.wayTo .target path with
  | .ok way =>
    .ok <| match system.root.at? way with
      | some (.file _) => some .file
      | some (.folder _) => some .folder
      | _ => none
  | .error (.refused .nameTooLong text target) => .error (.refused .nameTooLong text target)
  | .error _ => .ok none

/-- The bytes of a file. -/
def read (system : FileSystem) (path : Path) : Except FileFault ByteArray := do
  let way ← system.wayTo .target path
  match system.root.at? way with
  | some (.file content) => .ok content
  | some (.folder _) => .error (.refused .isFolder path.text none)
  | _ => .error (.refused .notFound path.text none)

/-- How deep links may stand inside the ways of other links, for the places that they really name. -/
def maxNestedLinks : Nat := 1000

/-- The way on along names without a look at what is there. -/
def wayByName (here names : List String) : List String :=
  names.foldl (fun way name => if name = ".." then way.dropLast else way ++ [name]) here

/-- The way through real folders to where names lead, as far as these exist, and whether all links on
it lead somewhere. What does not exist follows by name, and so does all that comes behind a link
that leads back to itself. The links whose ways are not at their end yet are `followed`. -/
def realWayFrom (root : FileTree) (links : Nat) (followed : List (List String)) (here : List String)
    (names : List String) : List String × Bool :=
  match names with
  | [] => (here, true)
  | name :: rest =>
    if name = ".." then realWayFrom root links followed here.dropLast rest
    else
      let there := here ++ [name]
      match root.at? there with
      | some (.link target) =>
        if followed.contains there then (wayByName there rest, false)
        else
          match links with
          | 0 => (wayByName there rest, false)
          | inner + 1 =>
            let target := Path.ofText target
            let start := if target.isAbsolute then [] else here
            match realWayFrom root inner (there :: followed) start target.parts with
            | (way, true) => realWayFrom root (inner + 1) followed way rest
            | (way, false) => (wayByName way rest, false)
      | _ => realWayFrom root links followed there rest
termination_by (links, names.length)

/-- The place that a path really names. -/
def realWay (system : FileSystem) (path : Path) : List String :=
  let start := if path.isAbsolute then [] else system.current
  (realWayFrom system.root maxNestedLinks [] start path.parts).1

/-- Whether the links behind a way lead in a circle. -/
def isCircle (system : FileSystem) (way : List String) : Bool :=
  match wayFrom system.root .target maxLinks [] way with
  | .error .tooManyLinks => true
  | _ => false

/-- The path of a place as it is seen from the current folder. -/
def pathOf (system : FileSystem) (way : List String) : Path :=
  if system.current.isPrefixOf way then { parts := way.drop system.current.length }
  else { root := "/", parts := way }

end FileSystem

/-- What changes a file system and may fail on the way; what was done before stays done. -/
abbrev FileAction := ExceptT FileFault (StateM FileSystem)

namespace FileAction

def inspect {α : Type} (look : FileSystem → Except FileFault α) : FileAction α := fun system =>
  (look system, system)

def kind? (path : Path) : FileAction (Option FileKind) := inspect (·.kind? path)

/-- Changes what stands at the end of a way. -/
def change (edit : FileTree → FileTree) : FileAction Unit := fun system =>
  (.ok (), { system with root := edit system.root })

/-- Refuses to do something with a path. -/
def refuse {α : Type} (cause : FileCause) (path : Path) : FileAction α :=
  throw (.refused cause path.text none)

/-- Makes one folder, where nothing is yet. -/
def makeFolder (path : Path) : FileAction Unit := do
  let way ← inspect (·.wayTo .link path)
  let system ← get
  if (system.root.at? way).isSome then refuse .taken path
  else change (·.put way .empty)

/-- Makes one folder unless it is there already. -/
def ensureFolder (path : Path) : FileAction Unit := do
  try makeFolder path
  catch fault =>
    if fault == .refused .notFound path.text none || !fault.isRefusal then throw fault
    else if (← kind? path) != some .folder then throw fault

/-- Makes a folder and the folders around it, as far as they are missing. -/
def ensureFolders (path : Path) : FileAction Unit := do
  try makeFolder path
  catch fault =>
    if fault == .refused .notFound path.text none then
      if _h : path.parts = [] then throw fault
      else
        ensureFolders path.parent
        ensureFolder path
    else if !fault.isRefusal then throw fault
    else if (← kind? path) != some .folder then throw fault
termination_by path.parts.length
decreasing_by
  simp only [Path.parent, List.length_dropLast]
  have := List.length_pos_iff.mpr _h
  omega

/-- Writes a file, over what it held before. -/
def write (path : Path) (content : ByteArray) : FileAction Unit := do
  let way ← inspect (·.wayTo .newFile path)
  let system ← get
  match system.root.at? way with
  | some (.folder _) => refuse .isFolder path
  | _ => change (·.put way (.file content))

/-- Writes a file and makes the folders around it, as far as they are missing. -/
def writeWithFolders (path : Path) (content : ByteArray) : FileAction Unit := do
  ensureFolders path.parent
  write path content

/-- Takes a file or a link away. -/
def remove (path : Path) : FileAction Unit := do
  let way ← inspect (·.wayTo .link path)
  let system ← get
  match system.root.at? way with
  | none => refuse .notFound path
  | some (.folder _) => refuse .isFolder path
  | some _ => change (·.remove way)

/-- Gives a file or folder another name, in place of what has that name. A folder can only take the
place of an empty folder, and nothing else can. -/
def move (path target : Path) : FileAction Unit := do
  let refuse (cause : FileCause) : FileAction Unit :=
    throw (.refused cause path.text (some target.text))
  let wayTo (place : Path) : FileAction (List String) := do
    try inspect (·.wayTo .link place)
    catch
      | .refused cause _ _ => throw (.refused cause path.text (some target.text))
      | fault => throw fault
  if path.name = ".." then refuse .busy
  else
    let source ← wayTo path
    let goal ← wayTo target
    let system ← get
    match system.root.at? source, system.root.at? goal with
    | none, _ => refuse .notFound
    | some (.folder _), some (.folder (_ :: _)) => refuse .notEmpty
    | some (.folder entries), some (.folder []) | some (.folder entries), none =>
      change fun root => (root.remove source).put goal (.folder entries)
    | some (.folder _), some _ => refuse .notFolder
    | some _, some (.folder _) => refuse .isFolder
    | some moved, _ => change fun root => (root.remove source).put goal moved

end FileAction

namespace FileSystem

/-- A file system whose current folder is a given tree. -/
def ofCurrent (current : List String) (tree : FileTree) : FileSystem where
  root := FileTree.empty.put current tree
  current

/-- The files below the current folder. -/
def currentFiles (system : FileSystem) : List (List String × ByteArray) :=
  ((system.root.at? system.current).map (FileTree.files [])).getD []

/-- The files below the current folder that are new or hold something else than before. -/
def changes (before after : FileSystem) : List (List String × ByteArray) :=
  let old := before.currentFiles
  after.currentFiles.filter fun file =>
    !old.any fun known => known.1 == file.1 && known.2.toList == file.2.toList

end FileSystem

end FormHarvest
