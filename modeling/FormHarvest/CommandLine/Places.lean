import FormHarvest.CommandLine.Command

namespace FormHarvest

/-- The places that a command works with, as far as they are known from the files that are at hand:
the settings file, and what the settings name once they can be read. -/
def ExtractRequest.places (asked : ExtractRequest) (system : FileSystem) : List Path :=
  let named := [given? asked.config, given? asked.report].filterMap id
  let fromSettings :=
    match (asked.prepare.run { system }).1 with
    | .ok (some settings) => settings.outputFolder.text?.toList ++ settings.search.scanned.texts
    | _ => []
  (named ++ fromSettings).map Path.ofText

/-- The places that the words of a command line lead to. -/
def placesFor (words : List String) (system : FileSystem) : List Path :=
  match mainGrammar.read [] words with
  | .ok (_ :: rest, _) =>
    match ExtractRequest.grammar.read {} rest with
    | .ok (asked, _) => asked.places system
    | .error _ => []
  | _ => []

end FormHarvest
