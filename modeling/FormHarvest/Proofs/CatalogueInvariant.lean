import FormHarvest.Message.Catalogue

namespace FormHarvest

theorem mem_addPlace {places : List Place} {place other : Place} :
    other ∈ Message.addPlace places place ↔ other ∈ places ∨ other = place := by
  unfold Message.addPlace
  split
  · rename_i known
    refine ⟨.inl, fun found => ?_⟩
    rcases found with found | rfl
    · exact found
    · exact known
  · simp

theorem mem_places_absorb {message other : Message} {place : Place} :
    place ∈ (message.absorb other).places ↔ place ∈ message.places ∨ place ∈ other.places := by
  have all (places known : List Place) :
      place ∈ places.foldl Message.addPlace known ↔ place ∈ known ∨ place ∈ places := by
    induction places generalizing known with
    | nil => simp
    | cons first rest ih => rw [List.foldl_cons, ih, mem_addPlace, List.mem_cons, or_assoc]
  exact all other.places message.places

theorem mem_insertMessage {new message : Message} {messages : List Message}
    (member : message ∈ insertMessage new messages) :
    message ∈ messages ∨ message = new ∨
      ∃ old ∈ messages, old.key = new.key ∧ message = old.absorb new := by
  induction messages with
  | nil => exact .inr (.inl (List.mem_singleton.mp member))
  | cons first rest ih =>
    simp only [insertMessage] at member
    split at member
    · rename_i sameKey
      rcases List.mem_cons.mp member with same | member
      · exact .inr (.inr ⟨first, List.mem_cons_self, sameKey, same⟩)
      · exact .inl (.tail _ member)
    · rcases List.mem_cons.mp member with rfl | member
      · exact .inl List.mem_cons_self
      · rcases ih member with member | same | ⟨old, atOld, sameKey, same⟩
        · exact .inl (.tail _ member)
        · exact .inr (.inl same)
        · exact .inr (.inr ⟨old, .tail _ atOld, sameKey, same⟩)

/-- What holds of the messages of a catalogue and of those that are added, and is kept when a message
takes one of its key in, holds of all messages afterwards. -/
theorem Catalogue.forall_mem_addAll {catalogue : Catalogue} {added : List Message}
    {holds : Message → Prop}
    (absorbs : ∀ old new, old.key = new.key → holds old → holds new → holds (old.absorb new))
    (before : ∀ message ∈ catalogue.messages, holds message)
    (given : ∀ message ∈ added, holds message) :
    ∀ message ∈ (catalogue.addAll added).messages, holds message := by
  induction added generalizing catalogue with
  | nil => exact before
  | cons new rest ih =>
    refine ih (fun message member => ?_) fun message member => given message (.tail _ member)
    have atNew := given new List.mem_cons_self
    rcases mem_insertMessage member with member | rfl | ⟨old, atOld, sameKey, rfl⟩
    · exact before message member
    · exact atNew
    · exact absorbs old new sameKey (before old atOld) atNew

end FormHarvest
