import FormHarvest.Proofs.OnePass
import FormHarvest.Proofs.SourceRuns
import FormHarvest.Proofs.SourceSigns

namespace FormHarvest

/-- The call that comes last in the text among those that set the default domain of a class or a
file. -/
def lastDefaultCall? (scope : List Node) : Option Node :=
  ((ownTextOrder scope).filter fun node => node.defaultDomain?.isSome).getLast?

theorem isSome_of_lastDefaultCall? {scope : List Node} {call : Node}
    (last : lastDefaultCall? scope = some call) : call.defaultDomain?.isSome := by
  have member := List.mem_of_getLast? last
  exact (List.mem_filter.mp member).2

@[simp] theorem lastDefaultCall?_nil : lastDefaultCall? [] = none := by
  rw [lastDefaultCall?, ownTextOrder_nil]
  rfl

/-- Later trees come last, then what stands behind the name of a call, then the call, and then what
it is called on. -/
theorem lastDefaultCall?_cons (node : Node) (rest : List Node) :
    lastDefaultCall? (node :: rest)
      = (lastDefaultCall? rest).or
          ((if node.isClassBody then none else lastDefaultCall? node.back).or
            ((if node.defaultDomain?.isSome then some node else none).or
              (lastDefaultCall? node.front))) := by
  have itself : ([node].filter fun node => node.defaultDomain?.isSome).getLast?
      = if node.defaultDomain?.isSome then some node else none := by
    rw [List.filter_singleton]
    cases node.defaultDomain?.isSome <;> rfl
  have parts : ownTextOrder (node :: rest)
      = ownTextOrder node.front ++ ([node]
        ++ ((if node.isClassBody then [] else ownTextOrder node.back) ++ ownTextOrder rest)) := by
    rw [ownTextOrder_cons]
    simp only [List.append_assoc, List.cons_append, List.nil_append]
  rw [lastDefaultCall?, parts, List.filter_append, List.filter_append, List.filter_append,
    List.getLast?_append, List.getLast?_append, List.getLast?_append, itself, Option.or_assoc,
    Option.or_assoc]
  by_cases isClass : node.isClassBody
  · simp only [isClass, if_true, List.filter_nil, List.getLast?_nil, lastDefaultCall?]
  · simp only [isClass, if_false, Bool.false_eq_true, lastDefaultCall?]

theorem ownNodes_append (first second : List Node) :
    ownNodes (first ++ second) = ownNodes first ++ ownNodes second := by
  induction first with
  | nil => simp only [List.nil_append, ownNodes_nil]
  | cons node rest ih => simp only [List.cons_append, ownNodes_cons, ih, List.append_assoc]

theorem defaultDomainOf_append (first second : List Node) :
    defaultDomainOf (first ++ second) = (defaultDomainOf second).or (defaultDomainOf first) := by
  rw [defaultDomainOf, ownNodes_append, List.filterMap_append, List.getLast?_append]
  rfl

/-- The default domain is that of the last call in the text, unless a call in what that one is
called on sets one: a call is visited before what it is called on. -/
theorem defaultDomainOf_eq_of_lastDefaultCall? (scope : List Node) :
    defaultDomainOf scope
      = (lastDefaultCall? scope).bind fun call =>
          (defaultDomainOf call.front).or call.defaultDomain? := by
  let decided (last : Option Node) : Option String :=
    last.bind fun call => (defaultDomainOf call.front).or call.defaultDomain?
  -- a last call always decides, whatever comes before it in the text
  have first {scope : List Node} (other : Option Node) :
      decided ((lastDefaultCall? scope).or other)
        = (decided (lastDefaultCall? scope)).or (decided other) := by
    cases last : lastDefaultCall? scope with
    | none => simp only [decided, Option.none_or, Option.bind_none]
    | some call =>
      obtain ⟨domain, sets⟩ := Option.isSome_iff_exists.mp (isSome_of_lastDefaultCall? last)
      simp only [decided, Option.some_or, Option.bind_some, sets]
      cases defaultDomainOf call.front <;> rfl
  fun_induction ownTextOrder scope with
  | case1 => simp only [defaultDomainOf_nil, lastDefaultCall?_nil, Option.bind_none]
  | case2 node rest front back behind =>
    have atNode : decided ((if node.defaultDomain?.isSome then some node else none).or
        (lastDefaultCall? node.front)) = (defaultDomainOf node.front).or node.defaultDomain? := by
      cases sets : node.defaultDomain? with
      | some domain =>
        simp only [decided, Option.isSome_some, if_true, Option.some_or, Option.bind_some, sets]
      | none =>
        simp only [Option.isSome_none, Bool.false_eq_true, if_false, Option.none_or, Option.or_none]
        exact front.symm
    show _ = decided (lastDefaultCall? (node :: rest))
    rw [lastDefaultCall?_cons, first, defaultDomainOf_cons]
    rw [show decided (lastDefaultCall? rest) = defaultDomainOf rest from behind.symm]
    by_cases isClass : node.isClassBody
    · have noFront := (Node.front_of_isClassBody isClass).1
      rw [noFront, defaultDomainOf_nil] at atNode
      simp only [isClass, if_true, Option.none_or, atNode, noFront]
    · simp only [isClass, if_false, Bool.false_eq_true, first, atNode]
      rw [show decided (lastDefaultCall? node.back) = defaultDomainOf node.back from
        back.symm, ← node.front_append_back, defaultDomainOf_append, Option.or_assoc]

theorem textOrder_children_sublist {node : Node} {nodes : List Node} (member : node ∈ walk nodes) :
    (textOrder node.children).Sublist (textOrder nodes) := by
  have parts (node : Node) (rest : List Node) :
      (textOrder node.children).Sublist (textOrder (node :: rest)) := by
    rw [textOrder_cons, ← node.front_append_back, textOrder_append]
    exact ((List.Sublist.refl _).append (.cons node (.refl _))).trans (List.sublist_append_left _ _)
  induction nodes using Node.forest_induction with
  | nil => simp only [walk_nil, List.not_mem_nil] at member
  | cons first rest inside behind =>
    rcases mem_walk_cons.mp member with rfl | member | member
    · exact parts node rest
    · exact (inside member).trans (parts first rest)
    · rw [textOrder_cons]
      exact (behind member).trans (List.sublist_append_right _ _)

/-- A class body of a file, or the file. -/
def IsScopeOf (scope nodes : List Node) : Prop :=
  scope = nodes ∨ ∃ name mark, Node.classBody name scope mark ∈ walk nodes

theorem IsScopeOf.textOrder_sublist {scope nodes : List Node} (isScope : IsScopeOf scope nodes) :
    (textOrder scope).Sublist (textOrder nodes) := by
  rcases isScope with rfl | ⟨name, mark, member⟩
  · exact .refl _
  · exact textOrder_children_sublist member

theorem Node.isSome_sign?_of_defaultDomain? {node : Node} (sets : node.defaultDomain?.isSome) :
    node.sign?.isSome := by
  cases node <;> first | rfl | cases sets

/-- A token of the source writes the sign of a node. -/
def Node.IsWrittenBy (node : Node) (token : Token) : Prop :=
  ∃ sign, node.sign? = some sign ∧ sign.IsWritten token

/-- Nodes with signs of their own, when some of them are left out, are still written by tokens in
their order. -/
theorem exists_sublist_isWrittenBy {part nodes : List Node} {heads : List Token}
    (inNodes : part.Sublist nodes)
    (written : List.Forall₂ Sign.IsWritten (nodes.filterMap Node.sign?) heads)
    (signed : ∀ node ∈ part, node.sign?.isSome) :
    ∃ own, own.Sublist heads ∧ List.Forall₂ Node.IsWrittenBy part own := by
  induction inNodes generalizing heads with
  | slnil => exact ⟨[], List.nil_sublist _, .nil⟩
  | cons node _ ih =>
    cases sign : node.sign? with
    | none =>
      rw [List.filterMap_cons_none sign] at written
      exact ih written signed
    | some found =>
      rw [List.filterMap_cons_some sign] at written
      obtain ⟨token, behind, -, others, rfl⟩ := List.forall₂_cons_left_iff.mp written
      obtain ⟨own, inBehind, matched⟩ := ih others signed
      exact ⟨own, inBehind.cons token, matched⟩
  | cons_cons node _ ih =>
    obtain ⟨sign, found⟩ := Option.isSome_iff_exists.mp (signed node List.mem_cons_self)
    rw [List.filterMap_cons_some found] at written
    obtain ⟨token, behind, first, others, rfl⟩ := List.forall₂_cons_left_iff.mp written
    obtain ⟨own, inBehind, matched⟩ := ih others fun node member => signed node (.tail _ member)
    exact ⟨token :: own, inBehind.cons_cons token, .cons ⟨sign, found, first⟩ matched⟩

namespace Extractor

variable {extractor : Extractor} {path : String}

theorem leftMessages_sublist_storedMessages {nodes : List Node} {node : Node}
    (member : node ∈ walk nodes) (isClass : node.isClassBody) :
    (extractor.leftMessages path node.children).Sublist (extractor.storedMessages path nodes) := by
  induction nodes using Node.forest_induction with
  | nil => simp only [walk_nil, List.not_mem_nil] at member
  | cons first rest inside behind =>
    rw [extractor.storedMessages_cons]
    rcases mem_walk_cons.mp member with rfl | member | member
    · rw [if_pos isClass]
      exact (List.sublist_append_right _ _).trans (List.sublist_append_left _ _)
    · rw [List.append_assoc, List.append_assoc]
      exact ((inside member).trans (List.sublist_append_left _ _)).trans (List.sublist_append_right _ _)
    · exact (behind member).trans (List.sublist_append_right _ _)

theorem leftMessages_sublist_addedMessages {scope nodes : List Node} (isScope : IsScopeOf scope nodes) :
    (extractor.leftMessages path scope).Sublist (extractor.addedMessages path nodes) := by
  rcases isScope with rfl | ⟨name, mark, member⟩
  · exact List.sublist_append_right _ _
  · exact (leftMessages_sublist_storedMessages member rfl).trans (List.sublist_append_left _ _)

/-- The texts that wait in a class get its default domain and no other. -/
theorem forall_leftMessages_domain_iff {scope : List Node} {domain : Option String} :
    (∀ message ∈ extractor.leftMessages path scope, message.domain = domain) ↔
      extractor.waitingEntries path scope = [] ∨ defaultDomainOf scope = domain := by
  rw [leftMessages, List.forall_mem_map]
  constructor
  · intro each
    cases waiting : extractor.waitingEntries path scope with
    | nil => exact .inl rfl
    | cons entry rest => exact .inr (each entry (by rw [waiting]; exact List.mem_cons_self))
  · rintro (nothing | same) entry member
    · rw [nothing] at member
      cases member
    · exact same

/-- In an extraction that comes to its end the texts of a class without a domain of their own are
stored under the default domain that the last call in the text sets exactly if there are no such
texts or no call in what that call is called on sets another domain. -/
theorem run_last_default_wins_iff {source : String} {limit : Nat} {unit : SourceUnit} {log : List LogRecord}
    {catalogue : Catalogue} {visits : Option Nat} {extraction : Extraction} {scope : List Node}
    {call : Node} (parsed : parseSource path source limit = .ok (unit, log))
    (run : extractor.run path unit.nodes catalogue visits = (none, extraction))
    (complete : extraction.result.complete = true) (isScope : IsScopeOf scope unit.nodes)
    (last : lastDefaultCall? scope = some call) :
    ∃ messages tokens calls, extraction.catalogue = catalogue.addAll messages ∧
      (extractor.leftMessages path scope).Sublist messages ∧
      sourceTokens source = .ok tokens ∧ calls.Sublist tokens ∧
      List.Forall₂ Node.IsWrittenBy
        ((ownTextOrder scope).filter fun node => node.defaultDomain?.isSome) calls ∧
      ((∀ message ∈ extractor.leftMessages path scope, message.domain = call.defaultDomain?) ↔
        extractor.waitingEntries path scope = [] ∨
          ∀ domain, defaultDomainOf call.front = some domain → call.defaultDomain? = some domain) := by
  obtain ⟨-, tokens, heads, read, inTokens, written⟩ := parseSource_spells parsed
  have inText : ((ownTextOrder scope).filter fun node => node.defaultDomain?.isSome).Sublist
      (textOrder unit.nodes) :=
    List.filter_sublist.trans ((ownTextOrder_sublist_textOrder scope).trans isScope.textOrder_sublist)
  have signed : ∀ node ∈ (ownTextOrder scope).filter (fun node => node.defaultDomain?.isSome),
      node.sign?.isSome := fun node member =>
    Node.isSome_sign?_of_defaultDomain? (List.mem_filter.mp member).2
  obtain ⟨calls, inHeads, matched⟩ := exists_sublist_isWrittenBy inText written signed
  refine ⟨extractor.addedMessages path unit.nodes, tokens, calls, catalogue_of_complete run complete,
    leftMessages_sublist_addedMessages isScope, read, inHeads.trans inTokens, matched, ?_⟩
  have decided := defaultDomainOf_eq_of_lastDefaultCall? scope
  rw [last, Option.bind_some] at decided
  have agree : (defaultDomainOf call.front).or call.defaultDomain? = call.defaultDomain? ↔
      ∀ domain, defaultDomainOf call.front = some domain → call.defaultDomain? = some domain := by
    cases defaultDomainOf call.front <;> simp [eq_comm]
  rw [← agree, ← decided]
  exact forall_leftMessages_domain_iff

/-- A class with a field and two calls behind each other that set its default domain. -/
def callsBehindEachOther : String :=
  "<?php class PersonType \x7b function f() \x7b $builder->add('name', null, ['label' => 'Name']); "
    ++ "$resolver->setDefaults(['translation_domain' => 'first']); "
    ++ "$resolver->setDefaults(['translation_domain' => 'last']); \x7d \x7d"

/-- A class with a field and a chain of two calls that set its default domain. -/
def callsInAChain : String :=
  "<?php class PersonType \x7b function f() \x7b $builder->add('name', null, ['label' => 'Name']); "
    ++ "$resolver->setDefaults(['translation_domain' => 'first'])"
    ++ "->setDefaults(['translation_domain' => 'last']); \x7d \x7d"

/-- The default domain that the last call in the text sets in the only class of a file. -/
def lastDefaultOfClass? (nodes : List Node) : Option String :=
  match nodes with
  | [.classBody _ body _] => (lastDefaultCall? body).bind Node.defaultDomain?
  | _ => none

theorem exists_of_lastDefaultOfClass? {nodes : List Node} {domain : String}
    (found : lastDefaultOfClass? nodes = some domain) :
    ∃ body call, IsScopeOf body nodes ∧ lastDefaultCall? body = some call ∧
      call.defaultDomain? = some domain := by
  unfold lastDefaultOfClass? at found
  split at found
  · rename_i name body mark
    obtain ⟨call, last, sets⟩ := Option.bind_eq_some_iff.mp found
    exact ⟨body, call, .inr ⟨name, mark, mem_walk_of_mem List.mem_cons_self⟩, last, sets⟩
  · cases found

theorem last_default_wins_behindEachOther :
    ∃ unit log extraction body call messages tokens calls,
      parseSource "PersonType.php" callsBehindEachOther = .ok (unit, log) ∧
      ({} : Extractor).run "PersonType.php" unit.nodes .empty = (none, extraction) ∧
      IsScopeOf body unit.nodes ∧ lastDefaultCall? body = some call ∧
      call.defaultDomain? = some "last" ∧ extraction.catalogue = Catalogue.empty.addAll messages ∧
      (({} : Extractor).leftMessages "PersonType.php" body).Sublist messages ∧
      sourceTokens callsBehindEachOther = .ok tokens ∧ calls.Sublist tokens ∧
      List.Forall₂ Node.IsWrittenBy
        ((ownTextOrder body).filter fun node => node.defaultDomain?.isSome) calls ∧
      extraction.catalogue.messages
        = [{ id := "Name", domain := some "last", places := [⟨"PersonType.php", 1⟩] }] := by
  obtain ⟨unit, log, extraction, parsed, run, complete, checked⟩ := exists_of_ofSource? (show
    (({} : Extractor).ofSource? "PersonType.php" callsBehindEachOther).any (fun found =>
      decide (lastDefaultOfClass? found.1.nodes = some "last" ∧ found.2.catalogue.messages
        = [{ id := "Name", domain := some "last", places := [⟨"PersonType.php", 1⟩] }])) = true
    from by decide +kernel)
  obtain ⟨found, stored⟩ := of_decide_eq_true checked
  obtain ⟨body, call, isScope, last, sets⟩ := exists_of_lastDefaultOfClass? found
  obtain ⟨messages, tokens, calls, added, left, read, inTokens, written, -⟩ :=
    run_last_default_wins_iff parsed run complete isScope last
  exact ⟨unit, log, extraction, body, call, messages, tokens, calls, parsed, run, isScope, last,
    sets, added, left, read, inTokens, written, stored⟩

theorem first_default_wins_inAChain :
    ∃ unit log extraction body call,
      parseSource "PersonType.php" callsInAChain = .ok (unit, log) ∧
      ({} : Extractor).run "PersonType.php" unit.nodes .empty = (none, extraction) ∧
      extraction.result.complete = true ∧ IsScopeOf body unit.nodes ∧
      lastDefaultCall? body = some call ∧ call.defaultDomain? = some "last" ∧
      extraction.catalogue.messages
        = [{ id := "Name", domain := some "first", places := [⟨"PersonType.php", 1⟩] }] := by
  obtain ⟨unit, log, extraction, parsed, run, complete, checked⟩ := exists_of_ofSource? (show
    (({} : Extractor).ofSource? "PersonType.php" callsInAChain).any (fun found =>
      decide (lastDefaultOfClass? found.1.nodes = some "last" ∧ found.2.catalogue.messages
        = [{ id := "Name", domain := some "first", places := [⟨"PersonType.php", 1⟩] }])) = true
    from by decide +kernel)
  obtain ⟨found, stored⟩ := of_decide_eq_true checked
  obtain ⟨body, call, isScope, last, sets⟩ := exists_of_lastDefaultOfClass? found
  exact ⟨unit, log, extraction, body, call, parsed, run, complete, isScope, last, sets, stored⟩

end Extractor

end FormHarvest
