namespace FormHarvest

/-- A place in a source file where a message was found. Line zero stands for the whole file. -/
structure Place where
  path : String
  line : Int := 0
deriving DecidableEq

def Place.text (place : Place) : String :=
  if place.line = 0 then place.path else s!"{place.path}:{place.line}"

/-- Texts by language, in the order in which the languages came. -/
abbrev Translations := List (String × String)

namespace Translations

/-- The translations with that for one language set: in place when the language is there, at the
end when it is new. -/
def put (locale text : String) : Translations → Translations
  | [] => [(locale, text)]
  | (known, old) :: rest =>
    if known = locale then (known, text) :: rest else (known, old) :: put locale text rest

/-- The translations with others put on top, one by one. -/
def putAll (translations others : Translations) : Translations :=
  others.foldl (fun all (locale, text) => put locale text all) translations

theorem mem_keys_put (locale text key : String) (translations : Translations) :
    key ∈ (put locale text translations).map Prod.fst ↔
      key = locale ∨ key ∈ translations.map Prod.fst := by
  induction translations with
  | nil => simp [put]
  | cons first rest ih =>
    simp only [put]
    split
    · simp_all
    · simp only [List.map_cons, List.mem_cons, ih]
      grind

/-- Putting a translation keeps the languages distinct. -/
theorem nodup_keys_put (locale text : String) (translations : Translations)
    (distinct : (translations.map Prod.fst).Nodup) :
    ((put locale text translations).map Prod.fst).Nodup := by
  induction translations with
  | nil => simp [put]
  | cons first rest ih =>
    simp only [put]
    split
    · simpa using distinct
    · simp only [List.map_cons, List.nodup_cons] at distinct ⊢
      refine ⟨?_, ih distinct.2⟩
      rw [mem_keys_put]
      grind

end Translations

/-- A text to translate: its identifier and domain, where it was found, and what is known about it.
A message without a domain belongs to whatever domain is the default. -/
structure Message where
  id : String
  domain : Option String := none
  places : List Place := []
  desc : Option String := none
  meaning : Option String := none
  translations : Translations := []
deriving DecidableEq

/-- The domain of messages that have none. -/
def defaultDomain : String := "messages"

/-- The later of two remarks, unless it says nothing. -/
def laterRemark (earlier later : Option String) : Option String :=
  match later with
  | some text => if text = "" then earlier else some text
  | none => earlier

namespace Message

/-- What makes two messages the same. -/
def key (message : Message) : String × Option String := (message.id, message.domain)

/-- The domain under which a message is written. -/
def outputDomain (message : Message) : String :=
  match message.domain with
  | some domain => if domain = "" then defaultDomain else domain
  | none => defaultDomain

/-- The places with a further one, unless it is known. -/
def addPlace (places : List Place) (place : Place) : List Place :=
  if place ∈ places then places else places ++ [place]

/-- The message with what another finding of it says: its new places, its remarks unless they are
empty, and its translations on top of those known. -/
def absorb (message other : Message) : Message :=
  { message with
    places := other.places.foldl addPlace message.places
    desc := laterRemark message.desc other.desc
    meaning := laterRemark message.meaning other.meaning
    translations := message.translations.putAll other.translations }

@[simp] theorem key_absorb (message other : Message) : (message.absorb other).key = message.key :=
  rfl

end Message

end FormHarvest
