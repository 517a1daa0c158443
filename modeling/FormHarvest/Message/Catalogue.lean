import FormHarvest.Log
import FormHarvest.Message.Basic

namespace FormHarvest

/-- The messages with a new one: absorbed by the message of the same key, or at the end. -/
def insertMessage (new : Message) : List Message → List Message
  | [] => [new]
  | message :: rest =>
    if message.key = new.key then message.absorb new :: rest else message :: insertMessage new rest

theorem mem_keys_insertMessage (new : Message) (key : String × Option String)
    (messages : List Message) :
    key ∈ (insertMessage new messages).map Message.key ↔
      key = new.key ∨ key ∈ messages.map Message.key := by
  induction messages with
  | nil => simp [insertMessage]
  | cons first rest ih =>
    simp only [insertMessage]
    split
    · simp_all
    · simp only [List.map_cons, List.mem_cons, ih]
      grind

theorem nodup_keys_insertMessage (new : Message) (messages : List Message)
    (distinct : (messages.map Message.key).Nodup) :
    ((insertMessage new messages).map Message.key).Nodup := by
  induction messages with
  | nil => simp [insertMessage]
  | cons first rest ih =>
    simp only [insertMessage]
    split
    · simpa using distinct
    · simp only [List.map_cons, List.nodup_cons] at distinct ⊢
      refine ⟨?_, ih distinct.2⟩
      rw [mem_keys_insertMessage]
      grind

/-- Messages in the order in which they were first found, one for each key. -/
structure Catalogue where
  locale : Option String := none
  messages : List Message := []
  distinct : (messages.map Message.key).Nodup := by simp

namespace Catalogue

/-- The catalogue without messages. -/
def empty : Catalogue := {}

/-- Puts a message in, or what it says into the message of the same key. -/
def add (catalogue : Catalogue) (message : Message) : Catalogue where
  locale := catalogue.locale
  messages := insertMessage message catalogue.messages
  distinct := nodup_keys_insertMessage message catalogue.messages catalogue.distinct

/-- The catalogue with several messages added one by one. -/
def addAll (catalogue : Catalogue) (messages : List Message) : Catalogue := messages.foldl add catalogue

/-- The message of a key. -/
def get? (catalogue : Catalogue) (id : String) (domain : Option String) : Option Message :=
  catalogue.messages.find? fun message => message.key == (id, domain)

def contains (catalogue : Catalogue) (id : String) (domain : Option String) : Bool :=
  (catalogue.get? id domain).isSome

def size (catalogue : Catalogue) : Nat := catalogue.messages.length

/-- The domains in the order in which they first occur. -/
def domains (catalogue : Catalogue) : List (Option String) :=
  (catalogue.messages.map (·.domain)).eraseDups

def messagesOf (catalogue : Catalogue) (domain : Option String) : List Message :=
  catalogue.messages.filter (·.domain == domain)

/-- Whether a domain is wanted: listed, if a list is given at all, and not excluded. -/
def wants (listed : Option (List String)) (excluded : List String) (domain : String) : Bool :=
  listed.all (·.contains domain) && !excluded.contains domain

/-- The messages whose domains are wanted. -/
def restrict (catalogue : Catalogue) (listed : Option (List String)) (excluded : List String) :
    Catalogue where
  locale := catalogue.locale
  messages := catalogue.messages.filter fun message => wants listed excluded message.outputDomain
  distinct := catalogue.distinct.sublist (List.filter_sublist.map Message.key)

/-- What is logged when a catalogue was restricted. -/
def restrictLog (before after : Catalogue) : LogRecord :=
  ⟨.debug, .catalogue, s!"Domain filter kept {after.size} of {before.size} messages"⟩

/-- The catalogue with all messages of another one added in their order. -/
def merge (catalogue other : Catalogue) : Catalogue := catalogue.addAll other.messages

@[simp] theorem addAll_nil (catalogue : Catalogue) : catalogue.addAll [] = catalogue := rfl

@[simp] theorem addAll_append (catalogue : Catalogue) (earlier later : List Message) :
    catalogue.addAll (earlier ++ later) = (catalogue.addAll earlier).addAll later :=
  List.foldl_append

end Catalogue

end FormHarvest
