import FormHarvest.CommandLine.Places
import FormHarvest.Moment
import Std.Time.DateTime.Timestamp

namespace FormHarvest.Terminal

/-- The names on the way to a path that was made absolute. -/
def namesOf (path : String) : List String := (Path.ofText path).parts

/-- What stands at a place on the disk, with all that is below it. A link is taken to lead to where
it leads in the end. What cannot be read is left out. -/
partial def treeAt (place : IO.FS.DirEntry) : IO (Option FileTree) := do
  try
    match (← place.path.symlinkMetadata).type with
    | .file => return some (.file (← IO.FS.readBinFile place.path))
    | .symlink => return some (.link (← IO.FS.realPath place.path).toString)
    | .dir =>
      let entries ← (← place.path.readDir).toList.filterMapM fun entry => do
        return (← treeAt entry).map fun tree => (entry.fileName, tree)
      return some (.folder entries)
    | .other => return none
  catch _ => return none

/-- A place on the disk by the names on the way from the root. -/
def placeOf (names : List String) : IO.FS.DirEntry :=
  { root := "/", fileName := String.intercalate "/" names }

/-- Takes what stands on the way to a place into a tree, and all that is below the place. Folders on
the way are taken without what else they hold. -/
def load (tree : FileTree) (names : List String) : IO FileTree := do
  let mut tree := tree
  for length in List.range names.length do
    let way := names.take length
    if (tree.at? way).isNone && (← (placeOf way).path.isDir) then tree := tree.put way .empty
  match ← treeAt (placeOf names) with
  | some found => return tree.put names found
  | none => return tree

/-- The files that the words of a command line lead to. -/
def systemFor (words : List String) (current : List String) : IO FileSystem := do
  let mut system := FileSystem.ofCurrent current .empty
  for _ in List.range 2 do
    for path in placesFor words system do
      let way := if path.isAbsolute then path.parts else current ++ path.parts
      let real := system.realWay { root := "/", parts := way }
      system := { system with root := ← load system.root real }
  return system

/-- Writes the files that a command changed. -/
def store (before after : FileSystem) : IO Unit := do
  let old := before.root.files []
  for (way, content) in after.root.files [] do
    unless old.any fun known => known.1 == way && known.2.toList == content.toList do
      IO.FS.createDirAll (placeOf way.dropLast).path
      IO.FS.writeBinFile (placeOf way).path content

/-- Runs the program on the files of the disk and gives its exit code. -/
def run (words : List String) : IO UInt32 := do
  let current := namesOf (← IO.currentDir).toString
  let before ← systemFor words current
  let now := Moment.ofSeconds (← Std.Time.Timestamp.now).toSecondsSinceUnixEpoch.val.toNat
  match runProgram words now.text before with
  | .error _ =>
    IO.eprintln s!"{programName}: the settings or the report cannot be used"
    return 1
  | .ok answer =>
    for record in answer.shownLog do
      IO.eprintln s!"{now.date} {now.time} - {record.line}"
    store before answer.system
    IO.print answer.out
    IO.eprint answer.complaint
    return answer.exit.toUInt32

end FormHarvest.Terminal

/-- The program. -/
def main (words : List String) : IO UInt32 := FormHarvest.Terminal.run words
