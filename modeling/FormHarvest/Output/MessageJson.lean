import FormHarvest.Json.Writer
import FormHarvest.Output.Xliff

namespace FormHarvest

/-- What is written about a message, besides its identifier. -/
def Message.details (withPlaces : Bool) (message : Message) : Json :=
  .object ([("desc", Json.ofOption message.desc), ("meaning", Json.ofOption message.meaning)]
    ++ (if message.translations.isEmpty then []
      else [("alternative_translations",
        .object ((XliffStyle.sortedTranslations message.translations).map fun (locale, text) =>
          (locale, .string text)))])
    ++ if withPlaces then [("sources", Json.ofTexts (message.places.map Place.text))] else [])

/-- The file for messages: an object with a field for each identifier. -/
def writeMessageJson (withPlaces : Bool) (messages : List Message) : String :=
  let fields := messages.foldl
    (fun fields message => Json.setField message.id (message.details withPlaces) fields) []
  (Json.object fields).write (.lines 2) ++ "\n"

end FormHarvest
