import FormHarvest.Proofs.OnePass
import FormHarvest.Proofs.SourceRuns
import FormHarvest.Proofs.TextSpots

namespace FormHarvest

/-- A text that is read from an array of a file: where the array and the literal stand, and the
content of the class around them. -/
structure StoredText where
  array : Spot
  literal : Spot
  scope : List Node
  reading : TextReading

namespace StoredText

/-- The domain that the array of a text fixes. -/
def fixed (text : StoredText) : Option String := text.reading.domain

/-- The default domain of the class of a text. -/
def default (text : StoredText) : Option String := defaultDomainOf text.scope

/-- The message that is stored for a text. -/
def message (text : StoredText) : Message := text.reading.under text.default

@[simp] theorem domain_message (text : StoredText) :
    text.message.domain = text.fixed.or text.default := rfl

end StoredText

namespace Extractor

variable (extractor : Extractor) (path : String)

/-- The texts that are read when an array is visited, with their spots. -/
def textsAt (standing : Standing) : List StoredText :=
  match standing.node.arrayItems? with
  | some items =>
    (placedTexts extractor.convention extractor.isField standing.spot items).filterMap fun text =>
      (readItem? path ⟨text.1.read, text.2⟩).map
        (⟨standing.spot, text.1.valueSpot, standing.scope, ·⟩)
  | none => []

/-- The texts that are read from a file, with their spots. -/
def storedTexts (nodes : List Node) : List StoredText :=
  (placed nodes).flatMap (extractor.textsAt path)

theorem map_reading_textsAt (standing : Standing) :
    (extractor.textsAt path standing).map StoredText.reading
      = extractor.readings path standing.node := by
  unfold textsAt readings
  cases standing.node.arrayItems? with
  | none => rfl
  | some items =>
    simp only
    rw [← map_read_placedTexts _ _ standing.spot, List.filterMap_map, List.map_filterMap]
    simp only [Option.map_map, Function.comp_def, Option.map_id']

theorem scope_of_mem_textsAt {standing : Standing} {text : StoredText}
    (member : text ∈ extractor.textsAt path standing) : text.scope = standing.scope := by
  unfold textsAt at member
  split at member
  · obtain ⟨placed, -, read⟩ := List.mem_filterMap.mp member
    obtain ⟨reading, -, rfl⟩ := Option.map_eq_some_iff.mp read
    rfl
  · cases member

theorem map_message_storedTexts (nodes : List Node) :
    (extractor.storedTexts path nodes).map StoredText.message
      = extractor.declaredMessages path nodes := by
  rw [storedTexts, declaredMessages, List.map_flatMap]
  refine List.flatMap_congr fun standing _ => ?_
  rw [← map_reading_textsAt, List.map_map]
  refine List.map_congr_left fun text member => ?_
  simp only [Function.comp_apply, StoredText.message, StoredText.default,
    extractor.scope_of_mem_textsAt path member]

variable {extractor path}

/-- A text of a file stands in an array, which fixes its domain, and its literal stands below the
array and in the same class. -/
theorem stands_of_mem_storedTexts {nodes : List Node} {text : StoredText}
    (member : text ∈ extractor.storedTexts path nodes) :
    ∃ items mark index item literal,
      standingAt? nodes text.array = some ⟨text.array, text.scope, .array items mark⟩ ∧
      standingAt? nodes text.literal = some ⟨text.literal, text.scope, literal⟩ ∧
      Finding.text? literal = some text.reading.entry.id ∧
      items[index]? = some item ∧ text.literal.Inside (text.array.child index) ∧
      text.fixed = domainAtKey (translationDomain? items) item.keyText? := by
  obtain ⟨standing, placed, member⟩ := List.mem_flatMap.mp member
  have stands := standingAt?_of_mem_placed placed
  obtain ⟨spot, scope, node⟩ := standing
  unfold textsAt at member
  split at member
  case h_2 => cases member
  rename_i items array
  obtain ⟨mark, rfl⟩ := Node.eq_array_of_arrayItems? array
  obtain ⟨found, inArray, read⟩ := List.mem_filterMap.mp member
  obtain ⟨reading, isRead, rfl⟩ := Option.map_eq_some_iff.mp read
  obtain ⟨index, item, atIndex, within, domain⟩ := placedTexts_within ⟨stands, .refl spot⟩ inArray
  obtain ⟨literal, value, text, -, same⟩ := readItem?_eq_some isRead
  exact ⟨items, mark, index, item, literal, stands, (within.value value).stands, text, atIndex,
    (within.value value).inside, same.trans domain⟩

variable {nodes : List Node} {one other : StoredText}

theorem scope_eq_of_literal_eq (first : one ∈ extractor.storedTexts path nodes)
    (second : other ∈ extractor.storedTexts path nodes) (same : one.literal = other.literal) :
    one.scope = other.scope := by
  obtain ⟨_, _, _, _, _, -, atFirst, -⟩ := stands_of_mem_storedTexts first
  obtain ⟨_, _, _, _, _, -, atSecond, -⟩ := stands_of_mem_storedTexts second
  rw [← same, atFirst] at atSecond
  simp only [Option.some.injEq, Standing.mk.injEq] at atSecond
  exact atSecond.2.1

/-- An array fixes one domain for a literal, however often it reads the literal. -/
theorem fixed_eq_of_array_eq (first : one ∈ extractor.storedTexts path nodes)
    (second : other ∈ extractor.storedTexts path nodes) (same : one.literal = other.literal)
    (sameArray : one.array = other.array) : one.fixed = other.fixed := by
  obtain ⟨items, mark, index, item, _, stands, -, -, found, inside, fixed⟩ :=
    stands_of_mem_storedTexts first
  obtain ⟨items', mark', index', item', _, stands', -, -, found', inside', fixed'⟩ :=
    stands_of_mem_storedTexts second
  rw [← sameArray, stands] at stands'
  simp only [Option.some.injEq, Standing.mk.injEq, Node.array.injEq, true_and] at stands'
  obtain ⟨-, sameItems, -⟩ := stands'
  rw [← same, ← sameArray] at inside'
  rw [← sameItems, ← inside.index_eq inside', found, Option.some.injEq] at found'
  rw [fixed, fixed', sameItems, found']

theorem inside_or_inside_of_literal_eq (first : one ∈ extractor.storedTexts path nodes)
    (second : other ∈ extractor.storedTexts path nodes) (same : one.literal = other.literal) :
    one.array.Inside other.array ∨ other.array.Inside one.array := by
  obtain ⟨_, _, _, _, _, -, -, -, -, inside, -⟩ := stands_of_mem_storedTexts first
  obtain ⟨_, _, _, _, _, -, -, -, -, inside', -⟩ := stands_of_mem_storedTexts second
  have below := inside.trans ((Spot.Inside.refl one.array).child _)
  have below' := inside'.trans ((Spot.Inside.refl other.array).child _)
  rw [← same] at below'
  have top : one.array.top = other.array.top := below.1.symm.trans below'.1
  rcases List.prefix_or_prefix_of_prefix below.2 below'.2 with outer | inner
  · exact .inr ⟨top.symm, outer⟩
  · exact .inl ⟨top, inner⟩

end Extractor

/-- Each literal has one domain, however many texts are read from it. -/
def OneDomainEach (texts : List StoredText) : Prop :=
  ∀ one ∈ texts, ∀ other ∈ texts, one.literal = other.literal →
    one.message.domain = other.message.domain

/-- An array around another one fixes for a literal that both read the domain that the inner one
fixes, or one of them fixes none and the other one the default domain of their class. -/
def NestedArraysAgree (texts : List StoredText) : Prop :=
  ∀ outer ∈ texts, ∀ inner ∈ texts, outer.literal = inner.literal →
    inner.array.Inside outer.array → inner.array ≠ outer.array →
      outer.fixed = inner.fixed ∨ outer.fixed = none ∧ inner.fixed = outer.default ∨
        inner.fixed = none ∧ outer.fixed = outer.default

instance (texts : List StoredText) : Decidable (OneDomainEach texts) :=
  inferInstanceAs (Decidable (∀ one ∈ texts, ∀ other ∈ texts, one.literal = other.literal →
    one.message.domain = other.message.domain))

theorem or_eq_or_iff {first second default : Option String} :
    first.or default = second.or default ↔
      first = second ∨ first = none ∧ second = default ∨ second = none ∧ first = default := by
  cases first <;> cases second <;> simp [eq_comm]

namespace Extractor

variable {extractor : Extractor} {path : String} {nodes : List Node}

theorem oneDomainEach_iff_nestedArraysAgree :
    OneDomainEach (extractor.storedTexts path nodes) ↔
      NestedArraysAgree (extractor.storedTexts path nodes) := by
  have nested {outer inner : StoredText} (atOuter : outer ∈ extractor.storedTexts path nodes)
      (atInner : inner ∈ extractor.storedTexts path nodes) (same : outer.literal = inner.literal) :
      outer.message.domain = inner.message.domain ↔
        outer.fixed = inner.fixed ∨ outer.fixed = none ∧ inner.fixed = outer.default ∨
          inner.fixed = none ∧ outer.fixed = outer.default := by
    have sameDefault : outer.default = inner.default := by
      rw [StoredText.default, scope_eq_of_literal_eq atOuter atInner same]
      rfl
    rw [StoredText.domain_message, StoredText.domain_message, ← sameDefault, or_eq_or_iff]
  constructor
  · intro each outer atOuter inner atInner same _ _
    exact (nested atOuter atInner same).mp (each outer atOuter inner atInner same)
  · intro agree one atOne other atOther same
    by_cases sameArray : one.array = other.array
    · exact (nested atOne atOther same).mpr
        (.inl (fixed_eq_of_array_eq atOne atOther same sameArray))
    rcases inside_or_inside_of_literal_eq atOne atOther same with inside | inside
    · exact ((nested atOther atOne same.symm).mpr
        (agree other atOther one atOne same.symm inside sameArray)).symm
    · exact (nested atOne atOther same).mpr
        (agree one atOne other atOther same inside (Ne.symm sameArray))

/-- An extraction that comes to its end stores the texts of the file, and each literal under one
domain exactly if arrays inside each other agree about the literals that they both read. -/
theorem run_stores_one_domain_each_iff {catalogue : Catalogue} {visits : Option Nat}
    {extraction : Extraction} (run : extractor.run path nodes catalogue visits = (none, extraction))
    (complete : extraction.result.complete = true) :
    ∃ messages, extraction.catalogue = catalogue.addAll messages ∧
      messages.Perm ((extractor.storedTexts path nodes).map StoredText.message) ∧
      (OneDomainEach (extractor.storedTexts path nodes) ↔
        NestedArraysAgree (extractor.storedTexts path nodes)) := by
  refine ⟨extractor.addedMessages path nodes, catalogue_of_complete run complete, ?_,
    oneDomainEach_iff_nestedArraysAgree⟩
  rw [map_message_storedTexts]
  exact extractor.addedMessages_perm_declaredMessages path nodes

/-- A placeholder that two nested arrays read, neither of which names a domain. -/
def sharedPlaceholder : String :=
  "<?php $builder->add('name', null, ['attr' => ['placeholder' => 'Type here']]);"

/-- A placeholder that two nested arrays read, of which the outer one names a domain. -/
def claimedPlaceholder : String :=
  "<?php $builder->add('name', null, ['attr' => ['placeholder' => 'Type here'], "
    ++ "'translation_domain' => 'person']);"

theorem sharedPlaceholder_has_one_domain :
    ∃ unit log extraction messages,
      parseSource "PersonType.php" sharedPlaceholder = .ok (unit, log) ∧
      ({} : Extractor).run "PersonType.php" unit.nodes .empty = (none, extraction) ∧
      extraction.catalogue = Catalogue.empty.addAll messages ∧
      messages.Perm
        ((({} : Extractor).storedTexts "PersonType.php" unit.nodes).map StoredText.message) ∧
      (({} : Extractor).storedTexts "PersonType.php" unit.nodes).length = 2 ∧
      NestedArraysAgree (({} : Extractor).storedTexts "PersonType.php" unit.nodes) := by
  obtain ⟨unit, log, extraction, parsed, run, complete, checked⟩ := exists_of_ofSource? (show
    (({} : Extractor).ofSource? "PersonType.php" sharedPlaceholder).any (fun found =>
      let texts := ({} : Extractor).storedTexts "PersonType.php" found.1.nodes
      decide (texts.length = 2 ∧ OneDomainEach texts)) = true from by decide +kernel)
  obtain ⟨two, oneDomain⟩ := of_decide_eq_true checked
  obtain ⟨messages, stored, perm, agree⟩ := run_stores_one_domain_each_iff run complete
  exact ⟨unit, log, extraction, messages, parsed, run, stored, perm, two, agree.mp oneDomain⟩

theorem claimedPlaceholder_has_two_domains :
    ∃ unit log extraction,
      parseSource "PersonType.php" claimedPlaceholder = .ok (unit, log) ∧
      ({} : Extractor).run "PersonType.php" unit.nodes .empty = (none, extraction) ∧
      extraction.result.complete = true ∧
      extraction.catalogue.messages.map Message.key
        = [("Type here", some "person"), ("Type here", none)] ∧
      ¬OneDomainEach (({} : Extractor).storedTexts "PersonType.php" unit.nodes) := by
  obtain ⟨unit, log, extraction, parsed, run, complete, checked⟩ := exists_of_ofSource? (show
    (({} : Extractor).ofSource? "PersonType.php" claimedPlaceholder).any (fun found =>
      decide (found.2.catalogue.messages.map Message.key
          = [("Type here", some "person"), ("Type here", none)] ∧
        ¬OneDomainEach (({} : Extractor).storedTexts "PersonType.php" found.1.nodes))) = true
    from by decide +kernel)
  exact ⟨unit, log, extraction, parsed, run, complete, of_decide_eq_true checked⟩

end Extractor

end FormHarvest
