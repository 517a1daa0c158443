namespace FormHarvest

/-- What a file system holds at a place: a file, a link to another place, or a folder with what its
names hold. -/
inductive FileTree where
  | file (content : ByteArray)
  | link (target : String)
  | folder (entries : List (String × FileTree))
deriving Inhabited

/-- The kinds of what links lead to in the end. -/
inductive FileKind where
  | file
  | folder
deriving DecidableEq

namespace FileTree

/-- The empty folder. -/
def empty : FileTree := folder []

/-- Whether a tree is a folder. -/
def isFolder : FileTree → Bool
  | folder _ => true
  | _ => false

/-- What a name in a folder holds. -/
def entry? (name : String) : FileTree → Option FileTree
  | folder entries => (entries.find? (·.1 == name)).map (·.2)
  | _ => none

/-- What stands at the end of a way of names. -/
def at? (tree : FileTree) : List String → Option FileTree
  | [] => some tree
  | name :: rest => (tree.entry? name).bind (·.at? rest)

/-- The entries with that of a name changed; a name that is new comes last. -/
def changeEntry (name : String) (change : Option FileTree → Option FileTree) :
    List (String × FileTree) → List (String × FileTree)
  | [] => (change none).toList.map (name, ·)
  | (known, tree) :: rest =>
    if known = name then (change (some tree)).toList.map (name, ·) ++ rest
    else (known, tree) :: changeEntry name change rest

/-- The tree with what stands at the end of a way changed, or taken away when the change gives
nothing. Folders on the way that are missing are made. -/
def change (edit : Option FileTree → Option FileTree) : List String → FileTree → FileTree
  | [], tree => (edit (some tree)).getD tree
  | [name], folder entries => folder (changeEntry name edit entries)
  | name :: rest, folder entries =>
    folder (changeEntry name (fun old => some (change edit rest (old.getD empty))) entries)
  | _ :: _, other => other

/-- The tree with another one put at the end of a way. -/
def put (tree : FileTree) (way : List String) (new : FileTree) : FileTree :=
  tree.change (fun _ => some new) way

/-- The tree without what stands at the end of a way. -/
def remove (tree : FileTree) (way : List String) : FileTree := tree.change (fun _ => none) way

mutual

/-- The files of a tree with the ways to them, links left out. -/
def files (way : List String) : FileTree → List (List String × ByteArray)
  | file content => [(way, content)]
  | link _ => []
  | folder entries => filesOfEntries way entries

/-- The files of the entries of a folder. -/
def filesOfEntries (way : List String) :
    List (String × FileTree) → List (List String × ByteArray)
  | [] => []
  | (name, tree) :: rest => files (way ++ [name]) tree ++ filesOfEntries way rest

end

end FileTree

end FormHarvest
