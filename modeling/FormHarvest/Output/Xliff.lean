import FormHarvest.Message.Basic
import FormHarvest.Xml.Element

namespace FormHarvest

/-- What the header of an XLIFF file says, and whether it says where messages were found. -/
structure XliffStyle where
  sourceLanguage : String := "en"
  date : Option String := none
  withPlaces : Bool := true

namespace XliffStyle

def namespaceName : String := "urn:oasis:names:tc:xliff:document:1.2"

def placeNamespaceName : String := "urn:jms:translation"

/-- The translations sorted by language. -/
def sortedTranslations (translations : Translations) : Translations :=
  translations.mergeSort fun a b => a.1 ≤ b.1

/-- The text of a message: its description, or else its identifier. -/
def shownText (message : Message) : String :=
  match message.desc with
  | some desc => if desc = "" then message.id else desc
  | none => message.id

def placeElement (place : Place) : Xml :=
  .leaf "jms:reference-file"
    (("path", place.path) :: if place.line = 0 then [] else [("line", toString place.line)]) ""

/-- A remark that says something. -/
def spoken? (remark : Option String) : Option String := remark.filter (· != "")

/-- The unit of a message. -/
def unitOf (style : XliffStyle) (message : Message) : Xml :=
  .branch "trans-unit" [("id", message.id), ("resname", message.id)]
    ([.leaf "source" [] (shownText message), .leaf "target" [("state", "new")] (shownText message)]
      ++ (sortedTranslations message.translations).map (fun (locale, text) =>
        .branch "alt-trans" [("xml:lang", locale)] [.leaf "target" [] text])
      ++ (if style.withPlaces then message.places.map placeElement else [])
      ++ (spoken? message.desc).toList.map (.leaf "note" [] ·)
      ++ (spoken? message.meaning).toList.map fun meaning =>
        .leaf "note" [("extradata", s!"meaning: {meaning}")] meaning)

def header : Xml :=
  .branch "header" [] [
    .leaf "tool" [("tool-id", "FormLocalizer"), ("tool-name", "FormLocalizer")] "",
    .leaf "note" []
      "The source node in most cases contains the sample message as written by the developer."]

/-- The file for messages in a language. The namespace of places is declared only when there are
places. -/
def write (style : XliffStyle) (messages : List Message) (locale : String) : String :=
  let anyPlace := style.withPlaces && messages.any fun message => !message.places.isEmpty
  let namespaces := ("xmlns", namespaceName) ::
    if anyPlace then [("xmlns:jms", placeNamespaceName)] else []
  let file := [("source-language", style.sourceLanguage), ("target-language", locale),
    ("datatype", "plaintext"), ("original", "not.available")]
      ++ style.date.toList.map fun date => ("date", date)
  Xml.document (.branch "xliff" (namespaces ++ [("version", "1.2")])
    [.branch "file" file [header, .branch "body" [] (messages.map style.unitOf)]])

end XliffStyle

end FormHarvest
