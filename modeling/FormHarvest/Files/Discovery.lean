import FormHarvest.Files.FileSystem
import FormHarvest.Files.Glob
import FormHarvest.Json.Texts
import FormHarvest.Log
import FormHarvest.Text.Lowercase

namespace FormHarvest

/-- Which files are looked for: where, in which folders not, under which names not, and with which
endings. -/
structure Search where
  scanned : Texts
  excludedFolders : Texts := {}
  excludedNames : Texts := {}
  endings : Texts := { texts := [".php"] }

/-- What keeps files from being found: a value that is no text where one is needed, a name that the
system refuses, or links that lead in a circle. -/
inductive SearchFault where
  | value (fault : ValueFault)
  | file (fault : FileFault)
  | linkCircle (path : Path)
deriving DecidableEq

/-- What is said about a fault. -/
def SearchFault.message : SearchFault → String
  | value fault => fault.message
  | file fault => fault.message
  | linkCircle path => s!"Symlink loop from {quoted path.text}"

/-- What was found so far: the paths, the places that they really name, and the log. -/
structure Findings where
  paths : List Path := []
  places : List (List String) := []
  log : List LogRecord := []

namespace Search

/-- Whether a name matches one of several patterns. -/
def matchesSome (patterns : Texts) (name : String) : Except ValueFault Bool :=
  patterns.anyText fun pattern => Glob.accepts pattern name

/-- The path under which a walk looks at an entry of a folder. -/
def walkedPath (folder name : String) : String :=
  if folder.endsWith "/" then folder ++ name else folder ++ "/" ++ name

/-- Whether the system takes a path on a walk, which is not too long then. -/
def isTaken (walked : String) : Bool := walked.utf8ByteSize < FileSystem.maxPathSize

/-- Whether an entry of a folder, which stands at `way` and is looked at as `walked`, is a folder or a
link to one. Links are only followed from paths that the system takes. -/
def leadsToFolder (system : FileSystem) (way : List String) (walked : String) : Bool :=
  (isTaken walked || (system.root.at? way).any FileTree.isFolder) &&
    match FileSystem.wayFrom system.root .target FileSystem.maxLinks way.dropLast (way.getLast?.toList) with
    | .ok real => (system.root.at? real).any FileTree.isFolder
    | .error _ => false

mutual

/-- The files below a folder that stands at `way`, is shown as `path` and is walked to as `walked`:
first its own by name, then those of its folders by name. Folders with excluded names are left out,
links to folders are not followed, and a folder to which the walked path is too long shows nothing. -/
def below (search : Search) (system : FileSystem) (way : List String) (path : Path) (walked : String) :
    FileTree → List Path
  | .folder entries =>
    if isTaken walked then
      let own := (entries.map (·.1)).filter fun name =>
        !leadsToFolder system (way ++ [name]) (walkedPath walked name)
      let inner := belowEntries search system way path walked entries
      ((own.mergeSort (· ≤ ·)).map fun name => path.join { parts := [name] })
        ++ (inner.mergeSort (·.1 ≤ ·.1)).flatMap (·.2)
    else []
  | _ => []

/-- The files below each of the folders among entries, by name. -/
def belowEntries (search : Search) (system : FileSystem) (way : List String) (path : Path)
    (walked : String) : List (String × FileTree) → List (String × List Path)
  | [] => []
  | (name, tree) :: rest =>
    let others := belowEntries search system way path walked rest
    match tree with
    | .folder entries =>
      if search.excludedFolders.texts.any fun pattern => Glob.accepts pattern name then others
      else
        (name, below search system (way ++ [name]) (path.join { parts := [name] })
          (walkedPath walked name) (.folder entries)) :: others
    | _ => others

end

/-- Checks the patterns for excluded folders against the folders in a folder. What breaks them off
matters if one of these folders matches none before. -/
def checkFolders (search : Search) (system : FileSystem) (way : List String) (walked : String) :
    FileTree → Except ValueFault Unit
  | .folder entries =>
    let folders := (entries.map (·.1)).filter fun name =>
      leadsToFolder system (way ++ [name]) (walkedPath walked name)
    folders.forM fun name => (matchesSome search.excludedFolders name).map fun _ => ()
  | _ => .ok ()

/-- The files that an entry of the scan list may stand for; none when there is nothing. -/
def candidates? (search : Search) (system : FileSystem) (path : Path) :
    Except SearchFault (Option (List Path)) := do
  match ← (system.kind? path).mapError .file with
  | some .file => return some [path]
  | some .folder =>
    match system.wayTo .target path with
    | .ok way =>
      let tree := (system.root.at? way).getD .empty
      (search.checkFolders system way path.text tree).mapError .value
      return some (below search system way path path.text tree)
    | .error _ => return some []
  | none => return none

/-- Takes a file that has one of the endings, unless its name is excluded or it was found before. -/
def consider (search : Search) (system : FileSystem) (found : Findings) (path : Path) :
    Except (SearchFault × Findings) Findings :=
  let name := (lowercase path.name).toList
  if !search.endings.texts.any fun ending => (lowercase ending).toList.isSuffixOf name then .ok found
  else
    match matchesSome search.excludedNames path.name with
    | .error fault => .error (.value fault, found)
    | .ok true =>
      .ok { found with log := found.log ++
        [⟨.debug, .discovery, s!"Excluded by name: {path.text}"⟩] }
    | .ok false =>
      let place := system.realWay path
      if system.isCircle place then .error (.linkCircle (system.pathOf place), found)
      else if found.places.contains place then .ok found
      else .ok { found with paths := found.paths ++ [path], places := found.places ++ [place] }

/-- Searches one entry of the scan list. -/
def scan (search : Search) (system : FileSystem) (found : Findings) (entry : String) :
    Except (SearchFault × Findings) Findings :=
  match search.candidates? system (Path.ofText entry) with
  | .error fault => .error (fault, found)
  | .ok none =>
    .ok { found with log := found.log ++
      [⟨.warning, .discovery, s!"Scan directory not found: {entry}"⟩] }
  | .ok (some candidates) => candidates.foldlM (search.consider system) found

/-- All files that are looked for, each once, in the order of the scan list. The endings must all be
texts from the start. -/
def run (search : Search) (system : FileSystem) : Except (SearchFault × Findings) Findings := do
  if let some fault := search.endings.fault then throw (.value fault, {})
  let found ← search.scanned.texts.foldlM (search.scan system) {}
  match search.scanned.fault with
  | some fault => throw (.value fault, found)
  | none => return found

end Search

end FormHarvest
