import FormHarvest.Proofs.MessageOrigins
import FormHarvest.Proofs.SourceRuns
import FormHarvest.Proofs.SourceSigns
import FormHarvest.Proofs.TokenPlaces

namespace FormHarvest

/-- A token is a string whose value is known without running the program. -/
def Token.IsKnownString (text : String) (token : Token) : Prop :=
  token.kind = .string ∧ token.interpolated = false ∧ token.text = text

/-- A token writes a text at a line: it is a string that starts there, or a number, which starts
there unless minus signs stand before it. -/
def Token.Writes (text : String) (line : Int) (token : Token) : Prop :=
  token.IsKnownString text ∧ line = token.line ∨
    token.kind = .number ∧ ∃ minuses : Nat,
      text = String.ofList (List.replicate minuses '-') ++ token.text ∧
        (minuses = 0 → line = token.line)

theorem exists_isWritten_of_mem_walk {nodes : List Node} {heads : List Token}
    (written : List.Forall₂ Sign.IsWritten (signs nodes) heads) {node : Node} {sign : Sign}
    (member : node ∈ walk nodes) (own : node.sign? = some sign) :
    ∃ token ∈ heads, sign.IsWritten token := by
  have atSign : sign ∈ signs nodes :=
    List.mem_filterMap.mpr ⟨node, mem_textOrder.mpr member, own⟩
  generalize signs nodes = all at written atSign
  induction written with
  | nil => cases atSign
  | cons first _ ih =>
    rcases List.mem_cons.mp atSign with rfl | behind
    · exact ⟨_, List.mem_cons_self, first⟩
    · obtain ⟨token, member, found⟩ := ih behind
      exact ⟨token, .tail _ member, found⟩

section Written

variable {nodes : List Node} {heads : List Token}

theorem exists_isKnownString (written : List.Forall₂ Sign.IsWritten (signs nodes) heads)
    {node : Node} {text : String} (member : node ∈ walk nodes) (known : node.knownString? = some text) :
    ∃ token ∈ heads, token.IsKnownString text ∧ node.line = token.line := by
  cases node with
  | string value interpolated mark =>
    cases interpolated with
    | true => cases known
    | false =>
      cases known
      obtain ⟨token, found, kind, sameText, plain, line⟩ :=
        exists_isWritten_of_mem_walk written member rfl
      exact ⟨token, found, ⟨kind, plain, sameText⟩, line⟩
  | _ => cases known

theorem exists_writes (written : List.Forall₂ Sign.IsWritten (signs nodes) heads)
    (nonempty : ∀ token ∈ heads, token.kind = .number → token.text ≠ "") {node : Node}
    {text : String} (member : node ∈ walk nodes) (isText : Finding.text? node = some text) :
    ∃ token ∈ heads, token.Writes text node.line := by
  cases node with
  | number value raw mark =>
    obtain ⟨token, found, kind, minuses, sameRaw, line⟩ :=
      exists_isWritten_of_mem_walk written member rfl
    have notEmpty : raw ≠ "" := by
      intro empty
      rw [empty, eq_comm, String.append_eq_empty_iff] at sameRaw
      exact nonempty token found kind sameRaw.2
    have sameText : raw = text := by simpa [Finding.text?, Finding.numberText, notEmpty] using isText
    exact ⟨token, found, .inr ⟨kind, minuses, sameText ▸ sameRaw, line⟩⟩
  | _ =>
    obtain ⟨token, found, known, line⟩ := exists_isKnownString written member isText
    exact ⟨token, found, .inl ⟨known, line⟩⟩

end Written

/-- Every place of a message is a line of the file at which a token writes the text of the message,
and its domain is none, that of texts about invalid input, or the text of a string token. -/
structure Message.IsWrittenIn (path : String) (tokens : List Token) (message : Message) : Prop where
  found : message.places ≠ []
  places : ∀ place ∈ message.places,
    place.path = path ∧ ∃ token ∈ tokens, token.Writes message.id place.line
  domain : message.domain = none ∨ message.domain = some constraintDomain ∨
    ∃ token ∈ tokens, ∃ domain, token.IsKnownString domain ∧ message.domain = some domain

theorem Message.IsWrittenIn.absorb {path : String} {tokens : List Token} {old new : Message}
    (sameKey : old.key = new.key) (first : old.IsWrittenIn path tokens)
    (second : new.IsWrittenIn path tokens) : (old.absorb new).IsWrittenIn path tokens := by
  have sameId : old.id = new.id := congrArg Prod.fst sameKey
  refine ⟨?_, fun place member => ?_, first.domain⟩
  · obtain ⟨place, member⟩ := List.exists_mem_of_ne_nil _ first.found
    exact List.ne_nil_of_mem (mem_places_absorb.mpr (.inl member))
  · rcases mem_places_absorb.mp member with member | member
    · exact first.places place member
    · obtain ⟨samePath, token, found, writes⟩ := second.places place member
      refine ⟨samePath, token, found, ?_⟩
      show token.Writes old.id place.line
      rwa [sameId]

namespace Extractor

/-- Nothing is invented: what a complete extraction of a source puts into an empty catalogue is
written by tokens of the source, at the lines that the messages name. -/
theorem run_messages_areWritten {extractor : Extractor} {path source : String} {limit : Nat} {unit : SourceUnit}
    {log : List LogRecord} {catalogue : Catalogue} {visits : Option Nat} {extraction : Extraction}
    (parsed : parseSource path source limit = .ok (unit, log)) (empty : catalogue.messages = [])
    (run : extractor.run path unit.nodes catalogue visits = (none, extraction))
    (complete : extraction.result.complete = true) :
    ∃ tokens, sourceTokens source = .ok tokens ∧ (∀ token ∈ tokens, token.StandsIn source) ∧
      ∀ message ∈ extraction.catalogue.messages, message.IsWrittenIn path tokens := by
  obtain ⟨-, tokens, heads, read, inTokens, written⟩ := parseSource_spells parsed
  refine ⟨tokens, read, fun token => standsIn_of_mem_sourceTokens read, ?_⟩
  rw [catalogue_of_complete run complete]
  refine Catalogue.forall_mem_addAll (fun old new sameKey first second => first.absorb sameKey second)
    (fun message member => ?_) fun message member => ?_
  · rw [empty] at member
    cases member
  · obtain ⟨⟨value, atValue, isText, places⟩, domain⟩ := comesFrom_of_mem_addedMessages member
    obtain ⟨token, found, writes⟩ := exists_writes written
      (fun token found => text_ne_empty_of_number read (inTokens.subset found)) atValue isText
    refine ⟨by rw [places]; exact List.cons_ne_nil _ _, fun place isPlace => ?_, ?_⟩
    · rw [places, List.mem_singleton] at isPlace
      subst isPlace
      exact ⟨rfl, token, inTokens.subset found, writes⟩
    · refine domain.imp_right (.imp_right ?_)
      rintro ⟨node, atNode, domain, known, same⟩
      obtain ⟨token, found, isKnown, -⟩ := exists_isKnownString written atNode known
      exact ⟨token, inTokens.subset found, domain, isKnown, same⟩

/-- A label, and a choice that is a negative number. -/
def ageField : String :=
  "<?php\n$builder->add('age', null, ['label' => 'Age',\n 'choices' => [- 1 => 'unknown']]);"

theorem ageField_messages_areWritten :
    ∃ unit log extraction tokens, parseSource "AgeType.php" ageField = .ok (unit, log) ∧
      ({} : Extractor).run "AgeType.php" unit.nodes .empty = (none, extraction) ∧
      sourceTokens ageField = .ok tokens ∧
      extraction.catalogue.messages
        = [{ id := "Age", places := [⟨"AgeType.php", 2⟩] },
           { id := "-1", places := [⟨"AgeType.php", 3⟩] }] ∧
      ∀ message ∈ extraction.catalogue.messages, message.IsWrittenIn "AgeType.php" tokens := by
  obtain ⟨unit, log, extraction, parsed, run, complete, checked⟩ := exists_of_ofSource? (show
    (({} : Extractor).ofSource? "AgeType.php" ageField).any (fun found =>
      decide (found.2.catalogue.messages
        = [{ id := "Age", places := [⟨"AgeType.php", 2⟩] },
           { id := "-1", places := [⟨"AgeType.php", 3⟩] }])) = true from by decide +kernel)
  obtain ⟨tokens, read, -, written⟩ := run_messages_areWritten parsed rfl run complete
  exact ⟨unit, log, extraction, tokens, parsed, run, read, of_decide_eq_true checked, written⟩

end Extractor

end FormHarvest
