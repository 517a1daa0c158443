import FormHarvest.Proofs.CatalogueSummary
import Mathlib.Logic.Function.Basic

namespace FormHarvest

/-! ### Messages as objects -/

/-- A message as an object that can be changed. Its list of places and its table of translations are objects
too, and stand here with their addresses: other messages may share them. -/
structure MessageObject where
  id : String
  domain : Option String
  places : Nat
  desc : Option String
  meaning : Option String
  translations : Nat
deriving Inhabited

/-- Objects under their addresses. What an address holds that was not given out yet does not matter. -/
structure Memory where
  message : Nat → MessageObject := fun _ => default
  places : Nat → List Place := fun _ => []
  translations : Nat → Translations := fun _ => []
  next : Nat := 0

namespace Memory

/-- What a message object says at present. -/
def content (memory : Memory) (address : Nat) : Message :=
  let object := memory.message address
  { id := object.id
    domain := object.domain
    places := memory.places object.places
    desc := object.desc
    meaning := object.meaning
    translations := memory.translations object.translations }

/-- The memory with a new message object, which has a list and a table of its own. -/
def create (memory : Memory) (content : Message) : Memory where
  message := Function.update memory.message memory.next
    ⟨content.id, content.domain, memory.next, content.desc, content.meaning, memory.next⟩
  places := Function.update memory.places memory.next content.places
  translations := Function.update memory.translations memory.next content.translations
  next := memory.next + 1

/-- The memory with a message object, its list and its table changed in their places. -/
def change (memory : Memory) (address : Nat) (content : Message) : Memory :=
  let object := memory.message address
  { memory with
    message := Function.update memory.message address
      ⟨content.id, content.domain, object.places, content.desc, content.meaning, object.translations⟩
    places := Function.update memory.places object.places content.places
    translations := Function.update memory.translations object.translations content.translations }

/-- The memory with a message object that now has the list of one message object and the table of another
one. -/
def share (memory : Memory) (address placesOf translationsOf : Nat) : Memory :=
  let object := memory.message address
  { memory with
    message := Function.update memory.message address
      { object with
        places := (memory.message placesOf).places
        translations := (memory.message translationsOf).translations } }

/-- The memory with a place put into the list of a message object, unless it is there. -/
def addPlace (memory : Memory) (address : Nat) (place : Place) : Memory :=
  let list := (memory.message address).places
  { memory with places := Function.update memory.places list (Message.addPlace (memory.places list) place) }

/-- The memory with what another message object says taken in by a message object: place by place into its
list, then its remarks, then its table. -/
def absorb (memory : Memory) (address other : Nat) : Memory :=
  let given := memory.message other
  let placed := (memory.places given.places).foldl (fun memory place => memory.addPlace address place) memory
  let object := placed.message address
  { placed with
    message := Function.update placed.message address
      { object with
        desc := laterRemark object.desc given.desc
        meaning := laterRemark object.meaning given.meaning }
    translations := Function.update placed.translations object.translations
      ((placed.translations object.translations).putAll (placed.translations given.translations)) }

/-- A message object has the same list and the same table afterwards. -/
structure KeepsLists (before after : Memory) (address : Nat) : Prop where
  places : (after.message address).places = (before.message address).places
  translations : (after.message address).translations = (before.message address).translations

/-- A message object is the same afterwards, and so is what its list and its table hold. -/
structure Keeps (before after : Memory) (address : Nat) : Prop where
  message : after.message address = before.message address
  places : after.places (before.message address).places = before.places (before.message address).places
  translations : after.translations (before.message address).translations
    = before.translations (before.message address).translations

/-- A message object that was given out, and so were its list and its table. -/
structure IsKnown (memory : Memory) (address : Nat) : Prop where
  self : address < memory.next
  places : (memory.message address).places < memory.next
  translations : (memory.message address).translations < memory.next

/-- Two message objects, neither of which has the list or the table of the other one. -/
structure Apart (memory : Memory) (address other : Nat) : Prop where
  self : address ≠ other
  places : (memory.message address).places ≠ (memory.message other).places
  translations : (memory.message address).translations ≠ (memory.message other).translations

instance (memory : Memory) (address other : Nat) : Decidable (memory.Apart address other) :=
  decidable_of_iff (address ≠ other ∧ (memory.message address).places ≠ (memory.message other).places ∧
      (memory.message address).translations ≠ (memory.message other).translations)
    ⟨fun apart => ⟨apart.1, apart.2.1, apart.2.2⟩,
      fun apart => ⟨apart.self, apart.places, apart.translations⟩⟩

instance (memory : Memory) : Std.Symm memory.Apart :=
  ⟨fun _ _ apart => ⟨apart.self.symm, apart.places.symm, apart.translations.symm⟩⟩

variable {memory before after : Memory} {address other kept : Nat}

theorem Keeps.lists (keeps : Keeps before after address) : KeepsLists before after address :=
  ⟨congrArg MessageObject.places keeps.message, congrArg MessageObject.translations keeps.message⟩

theorem Keeps.content_eq (keeps : Keeps before after address) :
    after.content address = before.content address := by
  simp only [content, keeps.message, keeps.places, keeps.translations]

theorem KeepsLists.isKnown (keeps : KeepsLists before after address) (later : before.next ≤ after.next)
    (known : before.IsKnown address) : after.IsKnown address where
  self := Nat.lt_of_lt_of_le known.self later
  places := keeps.places ▸ Nat.lt_of_lt_of_le known.places later
  translations := keeps.translations ▸ Nat.lt_of_lt_of_le known.translations later

theorem KeepsLists.apart (keeps : KeepsLists before after address) (keepsOther : KeepsLists before after other)
    (apart : before.Apart address other) : after.Apart address other := by
  refine ⟨apart.self, ?_, ?_⟩
  · rw [keeps.places, keepsOther.places]
    exact apart.places
  · rw [keeps.translations, keepsOther.translations]
    exact apart.translations

theorem keeps_create (content : Message) (known : memory.IsKnown kept) :
    Keeps memory (memory.create content) kept where
  message := Function.update_of_ne (Nat.ne_of_lt known.self) _ _
  places := Function.update_of_ne (Nat.ne_of_lt known.places) _ _
  translations := Function.update_of_ne (Nat.ne_of_lt known.translations) _ _

theorem content_create (memory : Memory) (message : Message) :
    (memory.create message).content memory.next = message := by
  simp only [content, create, Function.update_self]

theorem isKnown_create (memory : Memory) (content : Message) :
    (memory.create content).IsKnown memory.next := by
  constructor <;> simp only [create, Function.update_self] <;> exact Nat.lt_succ_self _

/-- A new message object shares nothing with those that were there. -/
theorem apart_create (content : Message) (known : memory.IsKnown kept) :
    (memory.create content).Apart kept memory.next := by
  refine ⟨Nat.ne_of_lt known.self, ?_, ?_⟩ <;> rw [(keeps_create content known).message] <;>
    simp only [create, Function.update_self]
  · exact Nat.ne_of_lt known.places
  · exact Nat.ne_of_lt known.translations

theorem keeps_change (content : Message) (apart : memory.Apart kept address) :
    Keeps memory (memory.change address content) kept where
  message := Function.update_of_ne apart.self _ _
  places := Function.update_of_ne apart.places _ _
  translations := Function.update_of_ne apart.translations _ _

theorem keepsLists_change (memory : Memory) (address : Nat) (content : Message) (any : Nat) :
    KeepsLists memory (memory.change address content) any := by
  by_cases same : any = address
  · subst same
    constructor <;> simp only [change, Function.update_self]
  · constructor <;> simp only [change, Function.update_of_ne same]

theorem keeps_share (placesOf translationsOf : Nat) (different : kept ≠ address) :
    Keeps memory (memory.share address placesOf translationsOf) kept :=
  ⟨Function.update_of_ne different _ _, rfl, rfl⟩

theorem isKnown_share {placesOf translationsOf any : Nat} (address : Nat)
    (places : memory.IsKnown placesOf) (translations : memory.IsKnown translationsOf)
    (known : memory.IsKnown any) : (memory.share address placesOf translationsOf).IsKnown any := by
  by_cases same : any = address
  · subst same
    refine ⟨known.self, ?_, ?_⟩ <;> simp only [share, Function.update_self]
    · exact places.places
    · exact translations.translations
  · exact (keeps_share placesOf translationsOf same).lists.isKnown (Nat.le_refl _) known

/-- Places that are put into a list one by one are put into it at once. -/
theorem foldl_addPlace (memory : Memory) (address : Nat) (places : List Place) :
    places.foldl (fun memory place => memory.addPlace address place) memory
      = { memory with
          places := Function.update memory.places (memory.message address).places
            (places.foldl Message.addPlace (memory.places (memory.message address).places)) } := by
  induction places generalizing memory with
  | nil => simp only [List.foldl_nil, Function.update_eq_self]
  | cons place rest ih =>
    rw [List.foldl_cons, ih, List.foldl_cons]
    simp only [addPlace, Function.update_self, Function.update_idem]

theorem keeps_absorb (apart : memory.Apart kept address) (other : Nat) :
    Keeps memory (memory.absorb address other) kept := by
  constructor <;>
    simp only [absorb, foldl_addPlace, Function.update_of_ne apart.self, Function.update_of_ne apart.places,
      Function.update_of_ne apart.translations]

theorem keepsLists_absorb (memory : Memory) (address other any : Nat) :
    KeepsLists memory (memory.absorb address other) any := by
  by_cases same : any = address
  · subst same
    constructor <;> simp only [absorb, foldl_addPlace, Function.update_self]
  · constructor <;> simp only [absorb, foldl_addPlace, Function.update_of_ne same]

theorem next_absorb (memory : Memory) (address other : Nat) :
    (memory.absorb address other).next = memory.next := by
  simp only [absorb, foldl_addPlace]

/-- A message object takes in what another one says. -/
theorem content_absorb (memory : Memory) (address other : Nat) :
    (memory.absorb address other).content address
      = (memory.content address).absorb (memory.content other) := by
  simp only [content, absorb, foldl_addPlace, Function.update_self, Message.absorb]

end Memory

/-- A catalogue of message objects and the program around it: the objects that the program refers to, where
the message of each key lies, and what the added objects said when they were added. -/
structure Session where
  memory : Memory := {}
  held : List Nat := []
  index : List ((String × Option String) × Nat) := []
  given : List Message := []

/-- What the program around a catalogue does: it makes a message object, changes one, gives one the list and
the table of others, adds one to the catalogue, or asks the catalogue for the object of a key. It names its
objects by their numbers. -/
inductive Deed where
  | create (content : Message)
  | change (number : Nat) (content : Message)
  | share (number placesOf translationsOf : Nat)
  | add (number : Nat)
  | get (id : String) (domain : Option String)

namespace Session

/-- The catalogue's own message objects. -/
def stored (session : Session) : List Nat := session.index.map Prod.snd

/-- Adds a message object: a copy of it if its key is new, else what it says is taken in by the object of
that key. The program gets the catalogue's own object. -/
def add (session : Session) (address : Nat) : Session :=
  let content := session.memory.content address
  let given := session.given ++ [content]
  match session.index.find? (·.1 = content.key) with
  | some (_, stored) =>
    { session with memory := session.memory.absorb stored address, held := session.held ++ [stored], given }
  | none =>
    { memory := session.memory.create content
      held := session.held ++ [session.memory.next]
      index := session.index ++ [(content.key, session.memory.next)]
      given }

def step (session : Session) : Deed → Session
  | .create content =>
    { session with
      memory := session.memory.create content
      held := session.held ++ [session.memory.next] }
  | .change number content =>
    match session.held[number]? with
    | some address => { session with memory := session.memory.change address content }
    | none => session
  | .share number placesOf translationsOf =>
    match session.held[number]?, session.held[placesOf]?, session.held[translationsOf]? with
    | some address, some places, some translations =>
      { session with memory := session.memory.share address places translations }
    | _, _, _ => session
  | .add number =>
    match session.held[number]? with
    | some address => session.add address
    | none => session
  | .get id domain =>
    match session.index.find? (·.1 = (id, domain)) with
    | some (_, stored) => { session with held := session.held ++ [stored] }
    | none => session

/-- The session after some deeds, with nothing at first. -/
def run (deeds : List Deed) : Session := deeds.foldl step {}

/-- What the messages of the catalogue say at present. -/
def shown (session : Session) : List Message :=
  session.index.map fun entry => session.memory.content entry.2

end Session

/-- A deed spares the catalogue if it does not itself change one of the catalogue's objects: neither directly
nor through a list or a table that the changed object has in common with one. -/
def Deed.Spares (session : Session) : Deed → Prop
  | .change number _ => ∀ address ∈ session.held[number]?, ∀ stored ∈ session.stored,
      session.memory.Apart stored address
  | .share number _ _ => ∀ address ∈ session.held[number]?, address ∉ session.stored
  | .create _ | .add _ | .get _ _ => True

instance (session : Session) (deed : Deed) : Decidable (deed.Spares session) :=
  match deed with
  | .change number _ => inferInstanceAs (Decidable (∀ address ∈ session.held[number]?,
      ∀ stored ∈ session.stored, session.memory.Apart stored address))
  | .share number _ _ =>
    inferInstanceAs (Decidable (∀ address ∈ session.held[number]?, address ∉ session.stored))
  | .create _ | .add _ | .get _ _ => inferInstanceAs (Decidable True)

namespace Session

/-- Each of some deeds spares the catalogue, at the point where it is done. -/
def IsSparedBy (session : Session) : List Deed → Prop
  | [] => True
  | deed :: rest => deed.Spares session ∧ (session.step deed).IsSparedBy rest

instance decidableIsSparedBy (session : Session) : (deeds : List Deed) → Decidable (session.IsSparedBy deeds)
  | [] => inferInstanceAs (Decidable True)
  | deed :: rest =>
    have := decidableIsSparedBy (session.step deed) rest
    inferInstanceAs (Decidable (deed.Spares session ∧ (session.step deed).IsSparedBy rest))

/-- All message objects of the program and of the catalogue were given out. -/
structure IsKnown (session : Session) : Prop where
  held : ∀ address ∈ session.held, session.memory.IsKnown address
  stored : ∀ stored ∈ session.stored, session.memory.IsKnown stored

/-- The objects of the catalogue share nothing with each other, and say what the catalogue of the added
messages says. -/
structure Agrees (session : Session) : Prop where
  apart : session.stored.Pairwise session.memory.Apart
  keys : ∀ entry ∈ session.index, (session.memory.content entry.2).key = entry.1
  shown : session.shown = (Catalogue.empty.addAll session.given).messages

/-- The catalogue has the same objects afterwards, and these are as they were. -/
structure Leaves (before after : Session) : Prop where
  index : after.index = before.index
  given : after.given = before.given
  keeps : ∀ stored ∈ before.stored, Memory.Keeps before.memory after.memory stored

variable {session after : Session} {address : Nat}

/-! ### What was given out -/

theorem IsKnown.of_memory (known : session.IsKnown) {memory : Memory}
    (further : ∀ any, session.memory.IsKnown any → memory.IsKnown any) :
    ({ session with memory } : Session).IsKnown :=
  ⟨fun any member => further any (known.held any member),
    fun any member => further any (known.stored any member)⟩

theorem IsKnown.hold (known : session.IsKnown) (new : session.memory.IsKnown address) :
    ({ session with held := session.held ++ [address] } : Session).IsKnown where
  held any member := by
    rcases List.mem_append.mp member with member | member
    · exact known.held any member
    · exact List.mem_singleton.mp member ▸ new
  stored := known.stored

theorem IsKnown.of_named (known : session.IsKnown) {number : Nat}
    (named : session.held[number]? = some address) : session.memory.IsKnown address :=
  known.held address (List.mem_of_getElem? named)

theorem IsKnown.of_found (known : session.IsKnown) {key found : String × Option String}
    (there : session.index.find? (·.1 = key) = some (found, address)) : session.memory.IsKnown address :=
  known.stored address (List.mem_map_of_mem (List.mem_of_find?_eq_some there))

theorem IsKnown.create (known : session.IsKnown) (content : Message) :
    (session.step (.create content)).IsKnown :=
  have further (any : Nat) (old : session.memory.IsKnown any) : (session.memory.create content).IsKnown any :=
    (Memory.keeps_create content old).lists.isKnown (Nat.le_succ _) old
  (known.of_memory further).hold (session.memory.isKnown_create content)

theorem IsKnown.add (known : session.IsKnown) (address : Nat) : (session.add address).IsKnown := by
  rw [Session.add]
  split
  next own found =>
    have further (any : Nat) (old : session.memory.IsKnown any) :
        (session.memory.absorb own address).IsKnown any :=
      (session.memory.keepsLists_absorb own address any).isKnown (session.memory.next_absorb own address).ge old
    have grown := (known.of_memory further).hold (further own (known.of_found found))
    exact ⟨grown.held, grown.stored⟩
  next =>
    have created := known.create (session.memory.content address)
    have new := session.memory.isKnown_create (session.memory.content address)
    refine ⟨created.held, fun any member => ?_⟩
    rw [Session.stored, List.map_append, List.mem_append] at member
    rcases member with member | member
    · exact created.stored any member
    · exact List.mem_singleton.mp member ▸ new

theorem step_isKnown (known : session.IsKnown) (deed : Deed) : (session.step deed).IsKnown := by
  cases deed with
  | create content => exact known.create content
  | change number content =>
    simp only [step]
    split
    next address _ =>
      exact known.of_memory fun any =>
        (session.memory.keepsLists_change address content any).isKnown (Nat.le_refl _)
    next => exact known
  | share number placesOf translationsOf =>
    simp only [step]
    split
    next address _ _ _ places translations =>
      exact known.of_memory fun _ =>
        Memory.isKnown_share address (known.of_named places) (known.of_named translations)
    next => exact known
  | add number =>
    simp only [step]
    split
    next address _ => exact known.add address
    next => exact known
  | get id domain =>
    simp only [step]
    split
    next found => exact known.hold (known.of_found found)
    next => exact known

/-! ### What the program does to its own objects -/

theorem Leaves.refl (session : Session) : session.Leaves session := ⟨rfl, rfl, fun _ _ => ⟨rfl, rfl, rfl⟩⟩

theorem Leaves.content_eq (leaves : session.Leaves after) {entry : (String × Option String) × Nat}
    (member : entry ∈ session.index) :
    after.memory.content entry.2 = session.memory.content entry.2 :=
  (leaves.keeps entry.2 (List.mem_map_of_mem member)).content_eq

theorem Leaves.shown_eq (leaves : session.Leaves after) : after.shown = session.shown := by
  rw [shown, leaves.index]
  exact List.map_congr_left fun _ member => leaves.content_eq member

theorem Leaves.agrees (leaves : session.Leaves after) (agrees : session.Agrees) : after.Agrees where
  apart := by
    rw [stored, leaves.index]
    exact agrees.apart.imp_of_mem fun member other =>
      (leaves.keeps _ member).lists.apart (leaves.keeps _ other).lists
  keys entry member := by
    rw [leaves.index] at member
    rw [leaves.content_eq member, agrees.keys entry member]
  shown := by rw [leaves.shown_eq, leaves.given, agrees.shown]

/-- A deed that spares the catalogue and adds nothing leaves it as it was. -/
theorem leaves_step (known : session.IsKnown) {deed : Deed} (spares : deed.Spares session)
    (addsNone : ∀ number, deed ≠ .add number) : session.Leaves (session.step deed) := by
  cases deed with
  | create content =>
    exact ⟨rfl, rfl, fun stored member => Memory.keeps_create content (known.stored stored member)⟩
  | change number content =>
    simp only [step]
    split
    next address named =>
      exact ⟨rfl, rfl, fun stored member => Memory.keeps_change content (spares address named stored member)⟩
    next => exact .refl session
  | share number placesOf translationsOf =>
    simp only [step]
    split
    next address _ _ named _ _ =>
      refine ⟨rfl, rfl, fun stored member => Memory.keeps_share _ _ fun same => ?_⟩
      exact spares address named (same ▸ member)
    next => exact .refl session
  | add number => exact absurd rfl (addsNone number)
  | get id domain =>
    simp only [step]
    split
    next => exact ⟨rfl, rfl, fun _ _ => ⟨rfl, rfl, rfl⟩⟩
    next => exact .refl session

/-! ### What is added -/

/-- Inserting a message among what the objects of an index say: the object of its key takes it in. -/
theorem insertMessage_of_found {index : List ((String × Option String) × Nat)} {content later : Nat → Message}
    {new : Message} {key : String × Option String} {stored : Nat}
    (keys : ∀ entry ∈ index, (content entry.2).key = entry.1) (distinct : (index.map Prod.snd).Nodup)
    (found : index.find? (·.1 = new.key) = some (key, stored))
    (takes : later stored = (content stored).absorb new)
    (others : ∀ entry ∈ index, entry.2 ≠ stored → later entry.2 = content entry.2) :
    insertMessage new (index.map fun entry => content entry.2) = index.map fun entry => later entry.2 := by
  induction index with
  | nil => cases found
  | cons first rest ih =>
    rw [List.map_cons, List.nodup_cons] at distinct
    rw [List.map_cons, List.map_cons, insertMessage, keys first List.mem_cons_self]
    rw [List.find?_cons] at found
    by_cases same : first.1 = new.key
    · rw [decide_eq_true same] at found
      obtain rfl : first = (key, stored) := Option.some.inj found
      have behind : ∀ entry ∈ rest, content entry.2 = later entry.2 := by
        intro entry member
        have there : entry.2 ∈ rest.map Prod.snd := List.mem_map_of_mem member
        exact (others entry (.tail _ member) fun again => distinct.1 (again ▸ there)).symm
      rw [if_pos same, takes, List.map_congr_left behind]
    · rw [decide_eq_false same] at found
      have there : stored ∈ rest.map Prod.snd := List.mem_map_of_mem (List.mem_of_find?_eq_some found)
      have different : first.2 ≠ stored := fun again => distinct.1 (again ▸ there)
      rw [if_neg same, others first List.mem_cons_self different,
        ih (fun entry member => keys entry (.tail _ member)) distinct.2 found fun entry member =>
          others entry (.tail _ member)]

theorem messages_addAll_concat (given : List Message) (new : Message) :
    (Catalogue.empty.addAll (given ++ [new])).messages
      = insertMessage new (Catalogue.empty.addAll given).messages := by
  rw [Catalogue.addAll_append]
  rfl

/-- An object of the catalogue takes another message in as its value does. -/
theorem agrees_add_of_found (agrees : session.Agrees) {key : String × Option String} {stored : Nat}
    (found : session.index.find? (·.1 = (session.memory.content address).key) = some (key, stored)) :
    (session.add address).Agrees := by
  have added : session.add address = { session with
      memory := session.memory.absorb stored address
      held := session.held ++ [stored]
      given := session.given ++ [session.memory.content address] } := by
    simp only [add, found]
  have there : stored ∈ session.stored := List.mem_map_of_mem (List.mem_of_find?_eq_some found)
  have lists := session.memory.keepsLists_absorb stored address
  have takes := session.memory.content_absorb stored address
  have others (entry : (String × Option String) × Nat) (member : entry ∈ session.index)
      (different : entry.2 ≠ stored) :
      (session.memory.absorb stored address).content entry.2 = session.memory.content entry.2 := by
    have apart : session.memory.Apart entry.2 stored :=
      agrees.apart.forall (List.mem_map_of_mem member) there different
    exact (Memory.keeps_absorb apart address).content_eq
  rw [added]
  constructor
  case apart => exact agrees.apart.imp fun apart => (lists _).apart (lists _) apart
  case keys =>
    intro entry member
    by_cases same : entry.2 = stored
    · rw [same, takes, Message.key_absorb, ← same]
      exact agrees.keys entry member
    · rw [others entry member same]
      exact agrees.keys entry member
  case shown =>
    have distinct : session.stored.Nodup := agrees.apart.imp Memory.Apart.self
    rw [messages_addAll_concat, ← agrees.shown]
    exact (insertMessage_of_found agrees.keys distinct found takes others).symm

theorem notMem_keys_of_new (agrees : session.Agrees) {key : String × Option String}
    (new : session.index.find? (·.1 = key) = none) : key ∉ session.shown.map Message.key := by
  intro there
  obtain ⟨message, shown, sameKey⟩ := List.mem_map.mp there
  obtain ⟨entry, member, rfl⟩ := List.mem_map.mp shown
  have different := List.find?_eq_none.mp new entry member
  exact different (decide_eq_true ((agrees.keys entry member).symm.trans sameKey))

/-- A message of a new key is copied to the end of the catalogue. -/
theorem agrees_add_of_new (known : session.IsKnown) (agrees : session.Agrees)
    (new : session.index.find? (·.1 = (session.memory.content address).key) = none) :
    (session.add address).Agrees := by
  have added : session.add address =
      { memory := session.memory.create (session.memory.content address)
        held := session.held ++ [session.memory.next]
        index := session.index ++ [((session.memory.content address).key, session.memory.next)]
        given := session.given ++ [session.memory.content address] } := by
    simp only [add, new]
  have copied := session.memory.content_create (session.memory.content address)
  have leaves : session.Leaves (session.step (.create (session.memory.content address))) :=
    leaves_step known trivial fun _ same => by cases same
  have created := leaves.agrees agrees
  rw [added]
  constructor
  case apart =>
    rw [stored, List.map_append, List.pairwise_append]
    refine ⟨created.apart, List.pairwise_singleton _ _, fun old member last atLast => ?_⟩
    rw [List.mem_singleton.mp atLast]
    exact Memory.apart_create _ (known.stored old member)
  case keys =>
    intro entry member
    rcases List.mem_append.mp member with member | member
    · exact created.keys entry member
    · rw [List.mem_singleton.mp member, copied]
  case shown =>
    rw [messages_addAll_concat, ← agrees.shown, insertMessage_eq_insertWith,
      insertWith.of_new (notMem_keys_of_new agrees new), ← leaves.shown_eq, shown, List.map_append,
      List.map_singleton, copied]
    rfl

/-! ### Sessions -/

/-- A deed that spares the catalogue leaves it saying what the messages that were added say. -/
theorem step_agrees (known : session.IsKnown) (agrees : session.Agrees) {deed : Deed}
    (spares : deed.Spares session) : (session.step deed).Agrees := by
  cases deed with
  | create | change | share | get =>
    exact (leaves_step known spares fun _ same => by cases same).agrees agrees
  | add number =>
    simp only [step]
    split
    next address _ =>
      cases found : session.index.find? (·.1 = (session.memory.content address).key) with
      | none => exact agrees_add_of_new known agrees found
      | some entry => exact agrees_add_of_found agrees found
    next => exact agrees

theorem foldl_step_isKnown (deeds : List Deed) (known : session.IsKnown) :
    (deeds.foldl step session).IsKnown := by
  induction deeds generalizing session with
  | nil => exact known
  | cons deed rest ih => exact ih (step_isKnown known deed)

theorem foldl_step_agrees (deeds : List Deed) (spared : session.IsSparedBy deeds) (known : session.IsKnown)
    (agrees : session.Agrees) : (deeds.foldl step session).Agrees := by
  induction deeds generalizing session with
  | nil => exact agrees
  | cons deed rest ih => exact ih spared.2 (step_isKnown known deed) (step_agrees known agrees spared.1)

theorem isKnown_nothing : ({} : Session).IsKnown where
  held _ member := by cases member
  stored _ member := by cases member

theorem agrees_nothing : ({} : Session).Agrees where
  apart := .nil
  keys _ member := by cases member
  shown := rfl

theorem isSparedBy_append {front back : List Deed} :
    session.IsSparedBy (front ++ back) ↔
      session.IsSparedBy front ∧ (front.foldl step session).IsSparedBy back := by
  induction front generalizing session with
  | nil => simp only [List.nil_append, IsSparedBy, true_and, List.foldl_nil]
  | cons deed rest ih => rw [List.cons_append, IsSparedBy, IsSparedBy, ih, and_assoc, List.foldl_cons]

/-- A program that makes a new object for a message can add it next. -/
theorem given_create_add (deeds : List Deed) (message : Message) :
    (run (deeds ++ [.create message, .add (run deeds).held.length])).given = (run deeds).given ++ [message] := by
  have named : ((run deeds).step (.create message)).held[(run deeds).held.length]?
      = some (run deeds).memory.next := by
    simp only [step, List.getElem?_concat_length]
  have ran : run (deeds ++ [.create message, .add (run deeds).held.length])
      = ((run deeds).step (.create message)).add (run deeds).memory.next := by
    rw [run, List.foldl_append]
    change ((run deeds).step (.create message)).step (.add _) = _
    simp only [step] at named ⊢
    rw [named]
  have content : ((run deeds).step (.create message)).memory.content (run deeds).memory.next = message :=
    Memory.content_create _ message
  rw [ran, add, content]
  split <;> rfl

/-- Every history of messages is added by some program that spares the catalogue. -/
theorem exists_run_given (history : List Message) :
    ∃ deeds, IsSparedBy {} deeds ∧ (run deeds).given = history := by
  induction history using List.reverseRecOn with
  | nil => exact ⟨[], trivial, rfl⟩
  | append_singleton front last ih =>
    obtain ⟨deeds, spared, given⟩ := ih
    refine ⟨deeds ++ [.create last, .add (run deeds).held.length], ?_, by rw [given_create_add, given]⟩
    exact isSparedBy_append.mpr ⟨spared, trivial, trivial, trivial⟩

/-- What the program does to its objects leaves the catalogue as it is, whatever it has done before, unless
it changes an object of the catalogue, or a list or a table of one. -/
theorem shown_append_of_spares (deeds : List Deed) {deed : Deed} (spares : deed.Spares (run deeds))
    (addsNone : ∀ number, deed ≠ .add number) : (run (deeds ++ [deed])).shown = (run deeds).shown := by
  rw [run, List.foldl_append]
  exact (leaves_step (foldl_step_isKnown deeds isKnown_nothing) spares addsNone).shown_eq

end Session

/-- **A catalogue is the summary of its history.** After messages were added one by one it holds one
message for each key, in the order in which the keys first came: with all places that were given for the
key, of the remarks the last ones that say something, or else the first ones, and with the last text for
each language. A program that added these messages as objects sees the same in its catalogue, whatever
it has done to its objects before and after it added them, if it spares those that the catalogue handed to
it. One deed that spares them leaves the catalogue as it is after any program. -/
theorem Catalogue.holds_summary (history : List Message)
    (places : ∀ message ∈ history, message.places.Nodup)
    (languages : ∀ message ∈ history, message.HasDistinctLanguages) :
    (empty.addAll history).messages = summaries history ∧
      (∃ deeds, Session.IsSparedBy {} deeds ∧ (Session.run deeds).given = history) ∧
      (∀ deeds, Session.IsSparedBy {} deeds → (Session.run deeds).given = history →
        (Session.run deeds).shown = summaries history) ∧
      ∀ (deeds : List Deed) (deed : Deed), deed.Spares (Session.run deeds) →
        (∀ number, deed ≠ .add number) →
        (Session.run (deeds ++ [deed])).shown = (Session.run deeds).shown := by
  have value := messages_addAll_empty places languages
  refine ⟨value, Session.exists_run_given history, fun deeds spared given => ?_,
    fun deeds _ => Session.shown_append_of_spares deeds⟩
  have agrees := Session.foldl_step_agrees deeds spared Session.isKnown_nothing Session.agrees_nothing
  exact agrees.shown.trans ((congrArg (fun given => (empty.addAll given).messages) given).trans value)

def nickname : Message :=
  { id := "Name", places := [⟨"Login.php", 3⟩, ⟨"Profile.php", 8⟩], desc := some "", meaning := some "",
    translations := [("fr", "Nom")] }

def fullName : Message :=
  { id := "Name", places := [⟨"Contact.php", 5⟩, ⟨"Login.php", 3⟩], desc := some "A full name",
    translations := [("de", "Name"), ("fr", "Prénom")] }

def silentName : Message := { id := "Name", places := [⟨"Contact.php", 5⟩], desc := some "" }

def street : Message := { id := "Street", domain := some "address", places := [⟨"Profile.php", 9⟩] }

/-- Three findings of a name with competing remarks, and in between and at last one of another text. -/
def namedThrice : List Message := [nickname, street, fullName, silentName, street]

/-- A program that adds them by two objects of its own: it changes the first one after it was added, lets it
share the lists of the second one, and changes these through it. At last it adds an object of the catalogue's
own. -/
def sharingDeeds : List Deed := [
  .create nickname, .add 0, .change 0 street, .add 0, .create fullName, .add 3, .share 0 3 3,
  .change 0 { silentName with id := "Lost" }, .change 3 silentName, .add 3, .change 3 nickname,
  .get "Street" (some "address"), .add 6]

theorem namedThrice_summarized :
    (Catalogue.empty.addAll namedThrice).messages = (Session.run sharingDeeds).shown ∧
      ([0, 3].filterMap fun number => (Session.run sharingDeeds).held[number]?.map
        (Session.run sharingDeeds).memory.content)
        = [{ id := "Lost", places := [⟨"Login.php", 3⟩, ⟨"Profile.php", 8⟩], desc := some "",
             translations := [("fr", "Nom")] },
           { id := "Name", places := [⟨"Login.php", 3⟩, ⟨"Profile.php", 8⟩], desc := some "",
             meaning := some "", translations := [("fr", "Nom")] }] ∧
      (Session.run sharingDeeds).shown = [
        { id := "Name", places := [⟨"Login.php", 3⟩, ⟨"Profile.php", 8⟩, ⟨"Contact.php", 5⟩],
          desc := some "A full name", meaning := some "",
          translations := [("fr", "Prénom"), ("de", "Name")] },
        { id := "Street", domain := some "address", places := [⟨"Profile.php", 9⟩] }] ∧
      (Session.run (sharingDeeds ++ [.change 3 street])).shown = (Session.run sharingDeeds).shown := by
  have spared : Session.IsSparedBy {} sharingDeeds := by decide +kernel
  have given : (Session.run sharingDeeds).given = namedThrice := by decide +kernel
  obtain ⟨value, -, seen, left⟩ := Catalogue.holds_summary namedThrice (by decide +kernel)
    (by simp only [Message.HasDistinctLanguages]; decide +kernel)
  have later := left sharingDeeds (.change 3 street) (by decide +kernel) fun _ same => by cases same
  exact ⟨value.trans (seen sharingDeeds spared given).symm, by decide +kernel, by decide +kernel, later⟩

/-- A program that adds a message object and then the one that the catalogue handed to it. -/
def ownObjectDeeds : List Deed := [.create { id := "Name" }, .add 0, .add 1]

/-- A program that lets the object it added have the list and the table of the catalogue's. -/
def sharedListDeeds : List Deed := [.create { id := "Name" }, .add 0, .share 0 1 1]

/-- Adding hands out the object that the catalogue keeps. If the program changes this object, or an added one
that has its list, the catalogue changes with it and no longer says what was added. -/
theorem ownObject_changesCatalogue :
    (Session.run ownObjectDeeds).shown = summaries (Session.run ownObjectDeeds).given ∧
      (Session.run (ownObjectDeeds ++ [.change 1 { id := "Name", desc := some "x" }])).given
        = [{ id := "Name" }, { id := "Name" }] ∧
      (Session.run (ownObjectDeeds ++ [.change 1 { id := "Name", desc := some "x" }])).shown
        = [{ id := "Name", desc := some "x" }] ∧
      (Session.run (ownObjectDeeds ++ [.change 1 { id := "Name", desc := some "x" }])).shown
        ≠ (Session.run ownObjectDeeds).shown ∧
      (Session.run sharedListDeeds).shown = summaries (Session.run sharedListDeeds).given ∧
      (Session.run (sharedListDeeds ++ [.change 0 { id := "Name", places := [⟨"Login.php", 3⟩] }])).given
        = [{ id := "Name" }] ∧
      (Session.run (sharedListDeeds ++ [.change 0 { id := "Name", places := [⟨"Login.php", 3⟩] }])).shown
        ≠ (Session.run sharedListDeeds).shown := by
  decide +kernel

end FormHarvest
