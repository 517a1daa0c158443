import FormHarvest.Text.Quoted

namespace FormHarvest

/-- Why the system refuses to do something with a file. -/
inductive FileCause where
  | notFound
  | busy
  | taken
  | notFolder
  | isFolder
  | nameTooLong
  | notEmpty
  | tooManyLinks
deriving DecidableEq

/-- The number and the text of a cause in messages. -/
def FileCause.describe : FileCause → Nat × String
  | notFound => (2, "No such file or directory")
  | busy => (16, "Device or resource busy")
  | taken => (17, "File exists")
  | notFolder => (20, "Not a directory")
  | isFolder => (21, "Is a directory")
  | nameTooLong => (36, "File name too long")
  | notEmpty => (39, "Directory not empty")
  | tooManyLinks => (40, "Too many levels of symbolic links")

/-- What goes wrong with a file: the system refuses, or a name holds the character that ends names.
A refusal names the file, and where it should have gone if it was to be moved. -/
inductive FileFault where
  | refused (cause : FileCause) (path : String) (target : Option String)
  | nulInName
deriving DecidableEq

/-- What is said about a fault. -/
def FileFault.message : FileFault → String
  | refused cause path none =>
    let (number, text) := cause.describe
    s!"[Errno {number}] {text}: {quoted path}"
  | refused cause path (some target) =>
    let (number, text) := cause.describe
    s!"[Errno {number}] {text}: {quoted path} -> {quoted target}"
  | nulInName => "embedded null byte"

/-- Whether a fault is a refusal of the system. -/
def FileFault.isRefusal : FileFault → Bool
  | refused _ _ _ => true
  | nulInName => false

end FormHarvest
