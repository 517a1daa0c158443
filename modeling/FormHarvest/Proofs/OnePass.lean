import FormHarvest.Proofs.Scopes
import FormHarvest.Proofs.Stations

namespace FormHarvest

namespace ScopeStack

theorem update_update (stack : ScopeStack) (first second : Scope → Scope) :
    (stack.update first).update second = stack.update (second ∘ first) := by
  obtain ⟨file, classes⟩ := stack
  cases classes <;> rfl

theorem update_id (stack : ScopeStack) {change : Scope → Scope} (same : ∀ scope, change scope = scope) :
    stack.update change = stack := by
  obtain ⟨file, classes⟩ := stack
  cases classes <;> simp only [update, same]

theorem leave?_update_enter (stack : ScopeStack) (change : Scope → Scope) :
    (stack.enter.update change).leave? = some (change {}, stack) := rfl

end ScopeStack

namespace Extraction

/-- What an extraction does to the innermost scope and to the catalogue on a part of its way: the
messages that it stores, the entries that it lets wait, and the last default domain that it meets.
Diagnostics, the log and the visits that are left are not looked at. -/
structure Brings (before after : Extraction) (stored : List Message) (waiting : List Entry)
    (default : Option String) : Prop where
  catalogue : after.catalogue = before.catalogue.addAll stored
  scopes : after.scopes = before.scopes.update fun scope =>
    ⟨default.or scope.defaultDomain, scope.pending ++ waiting⟩
  path : after.result.path = before.result.path
  complete : after.result.complete = before.result.complete
  messages : after.result.messages = before.result.messages + stored.length

namespace Brings

theorem nothing {before after : Extraction} (catalogue : after.catalogue = before.catalogue)
    (scopes : after.scopes = before.scopes) (path : after.result.path = before.result.path)
    (complete : after.result.complete = before.result.complete)
    (messages : after.result.messages = before.result.messages) : Brings before after [] [] none where
  catalogue := catalogue
  scopes := by
    rw [scopes, ScopeStack.update_id]
    intro scope
    simp only [Option.none_or, List.append_nil]
  path := path
  complete := complete
  messages := messages

theorem trans {first middle last : Extraction} {stored later : List Message}
    {waiting further : List Entry} {default next : Option String}
    (one : Brings first middle stored waiting default)
    (two : Brings middle last later further next) :
    Brings first last (stored ++ later) (waiting ++ further) (next.or default) where
  catalogue := by rw [two.catalogue, one.catalogue, Catalogue.addAll_append]
  scopes := by
    rw [two.scopes, one.scopes, ScopeStack.update_update]
    simp only [Function.comp_def, Option.or_assoc, List.append_assoc]
  path := two.path.trans one.path
  complete := two.complete.trans one.complete
  messages := by rw [two.messages, one.messages, List.length_append, Nat.add_assoc]

end Brings

variable {extractor : Extractor} {before after : Extraction}

theorem readText_brings {text : TextItem} (run : readText extractor before text = .ok after) :
    Brings before after
      ((Extractor.readItem? before.result.path text).toList.filterMap TextReading.fixed?)
      ((Extractor.readItem? before.result.path text).toList.filterMap TextReading.waiting?) none := by
  unfold readText at run
  split at run
  · cases run
  obtain ⟨item, domain⟩ := text
  rcases reading : Finding.ofItem before.result.path item with ⟨finding, records⟩
  simp only [reading] at run
  simp only [Extractor.readItem?, reading]
  cases finding with
  | nothing =>
    cases run
    exact .nothing rfl rfl rfl rfl rfl
  | diagnostic diagnostic =>
    simp only at run
    split at run
    · cases run
    · cases run
      exact .nothing rfl rfl rfl rfl rfl
  | entry entry =>
    cases domain with
    | some domain =>
      cases run
      exact ⟨rfl, by rw [ScopeStack.update_id] <;> simp [take, store, logged, TextReading.waiting?],
        rfl, rfl, rfl⟩
    | none =>
      cases run
      exact ⟨rfl, rfl, rfl, rfl, rfl⟩

theorem readTexts_bring {texts : List TextItem}
    (run : texts.foldlM (readText extractor) before = .ok after) :
    Brings before after
      ((texts.filterMap (Extractor.readItem? before.result.path)).filterMap TextReading.fixed?)
      ((texts.filterMap (Extractor.readItem? before.result.path)).filterMap TextReading.waiting?)
      none := by
  induction texts generalizing before with
  | nil =>
    cases run
    exact .nothing rfl rfl rfl rfl rfl
  | cons text rest ih =>
    obtain ⟨middle, first, others⟩ := foldlM_cons_eq_ok_iff.mp run
    have atFirst := readText_brings first
    have atOthers := ih others
    rw [atFirst.path] at atOthers
    have together := atFirst.trans atOthers
    have parts : (text :: rest).filterMap (Extractor.readItem? before.result.path)
        = (Extractor.readItem? before.result.path text).toList
          ++ rest.filterMap (Extractor.readItem? before.result.path) := by
      rw [List.filterMap_cons]
      split <;> rename_i read <;> rw [read] <;> rfl
    rw [parts, List.filterMap_append, List.filterMap_append]
    exact together

theorem visit_brings {node : Node} (noClass : ¬node.isClassBody)
    (run : visit extractor before node = .ok after) :
    Brings before after
      ((extractor.readings before.result.path node).filterMap TextReading.fixed?)
      ((extractor.readings before.result.path node).filterMap TextReading.waiting?)
      node.defaultDomain? := by
  -- only arrays have readings, only method calls a default domain
  cases node with
  | classBody name body mark => exact absurd rfl noClass
  | sourceUnit path nodes => cases run
  | array items mark => exact readTexts_bring run
  | methodCall receiver name args mark =>
    simp only [visit] at run
    split at run
    · rename_i domain known
      cases run
      rw [known]
      refine ⟨rfl, ?_, rfl, rfl, rfl⟩
      simp only [ScopeStack.setDomain, Option.some_or, Extractor.readings, Node.arrayItems?,
        List.filterMap_nil, List.append_nil]
    · rename_i known
      cases run
      rw [known]
      exact .nothing rfl rfl rfl rfl rfl
  | _ =>
    cases run
    exact .nothing rfl rfl rfl rfl rfl

theorem takeVisit?_brings (more : before.takeVisit? = some after) : Brings before after [] [] none := by
  unfold takeVisit? at more
  split at more <;> cases more <;> exact .nothing rfl rfl rfl rfl rfl

theorem step_visit_eq_ok {depth : Nat} {node : Node}
    (run : step extractor before (.visit depth node) = .ok after) :
    ∃ middle, Brings before middle [] [] none ∧ visit extractor middle node = .ok after := by
  simp only [step] at run
  split at run
  · cases run
  · split at run
    · cases run
    · rename_i middle more
      exact ⟨middle, takeVisit?_brings more, run⟩

theorem step_leave_eq {scope : Scope} {scopes : ScopeStack}
    (inside : before.scopes.leave? = some (scope, scopes)) :
    step extractor before .leave = .ok ({ before with scopes }.store scope.messages) := by
  simp only [step, inside]

/-- A class stores on its way what stands in it and at its end what waited there. To the scope
around it nothing happens. -/
theorem class_brings {depth : Nat} {node : Node} {entered inside : Extraction}
    {stored : List Message} {waiting : List Entry} {default : Option String}
    (isClass : node.isClassBody) (enter : step extractor before (.visit depth node) = .ok entered)
    (within : Brings entered inside stored waiting default)
    (leave : step extractor inside .leave = .ok after) :
    Brings before after (stored ++ waiting.map (·.inDomain default)) [] none := by
  obtain ⟨middle, more, entering⟩ := step_visit_eq_ok enter
  cases node with
  | classBody name body mark =>
    cases entering
    have closing : inside.scopes.leave? = some (⟨default, waiting⟩, middle.scopes) := by
      rw [within.scopes, ScopeStack.leave?_update_enter]
      simp only [Option.or_none, List.nil_append]
    rw [step_leave_eq closing] at leave
    cases leave
    have atClass : Brings middle
        ({ inside with scopes := middle.scopes }.store (Scope.messages ⟨default, waiting⟩))
        (stored ++ waiting.map (·.inDomain default)) [] none := by
      refine ⟨?_, ?_, within.path, within.complete, ?_⟩
      · simp only [store, Catalogue.addAll_append, within.catalogue, Scope.messages]
      · rw [ScopeStack.update_id _ fun scope => by simp only [Option.none_or, List.append_nil]]
        rfl
      · simp only [store, within.messages, Scope.messages, List.length_append, Nat.add_assoc]
    exact more.trans atClass
  | _ => cases isClass

/-- What the way through trees does, whatever stands around them. -/
theorem route_brings {path : String} {nodes : List Node} {depth : Nat}
    (samePath : before.result.path = path)
    (run : (route (nodes.map (.visit depth))).foldlM (step extractor) before = .ok after) :
    Brings before after (extractor.storedMessages path nodes) (extractor.waitingEntries path nodes)
      (defaultDomainOf nodes) := by
  induction nodes using Node.forest_induction generalizing depth before after with
  | nil =>
    rw [List.map_nil, route_nil] at run
    cases run
    rw [extractor.storedMessages_nil, extractor.waitingEntries_nil, defaultDomainOf_nil]
    exact .nothing rfl rfl rfl rfl rfl
  | cons node rest inside behind =>
    rw [route_visits_cons] at run
    obtain ⟨left, run, others⟩ := foldlM_append_eq_ok_iff.mp run
    obtain ⟨within, run, leaving⟩ := foldlM_append_eq_ok_iff.mp run
    obtain ⟨entered, entering, parts⟩ := foldlM_append_eq_ok_iff.mp run
    obtain ⟨_, entering, same⟩ := foldlM_cons_eq_ok_iff.mp entering
    cases same
    rw [extractor.storedMessages_cons, extractor.waitingEntries_cons, defaultDomainOf_cons]
    by_cases isClass : node.isClassBody
    · rw [if_pos isClass] at leaving
      obtain ⟨_, leaving, same⟩ := foldlM_cons_eq_ok_iff.mp leaving
      cases same
      have samePath' : entered.result.path = path := by
        obtain ⟨middle, more, entering⟩ := step_visit_eq_ok entering
        rw [← samePath, ← more.path]
        cases node <;> cases isClass
        cases entering
        rfl
      have atClass := class_brings isClass entering (inside samePath' parts) leaving
      have atRest := behind (atClass.path.trans samePath) others
      have noDefault : node.defaultDomain? = none := by cases node <;> first | rfl | cases isClass
      simpa only [isClass, if_true, extractor.readings_of_isClassBody path isClass, noDefault,
        List.filterMap_nil, List.nil_append, Option.or_none, Extractor.leftMessages] using
        atClass.trans atRest
    · rw [if_neg isClass] at leaving
      cases leaving
      obtain ⟨middle, more, visiting⟩ := step_visit_eq_ok entering
      have atNode := more.trans (visit_brings isClass visiting)
      rw [more.path, samePath] at atNode
      have atParts := inside (atNode.path.trans samePath) parts
      have atRest := behind ((atNode.trans atParts).path.trans samePath) others
      simpa only [isClass, if_false, Bool.false_eq_true, List.nil_append, List.append_nil,
        Option.or_none, Option.or_assoc] using (atNode.trans atParts).trans atRest

/-- What lies behind the last station: the entries of the file are stored like those of a class. -/
theorem finish_route {path : String} {nodes : List Node} {catalogue : Catalogue}
    {visits : Option Nat}
    (run : (routeThrough nodes).foldlM (step extractor)
      { catalogue, result := { path }, visitsLeft := visits } = .ok after) :
    after.finish.catalogue = catalogue.addAll (extractor.addedMessages path nodes) ∧
      after.finish.result.messages = (extractor.addedMessages path nodes).length ∧
      after.finish.result.complete = true := by
  have samePath : ({ catalogue, result := { path }, visitsLeft := visits } : Extraction).result.path
      = path := rfl
  have way := route_brings samePath run
  have atFile : after.scopes.file.messages = extractor.leftMessages path nodes := by
    rw [way.scopes]
    simp only [ScopeStack.update, Scope.messages, Option.or_none, List.nil_append,
      Extractor.leftMessages]
  refine ⟨?_, ?_, way.complete⟩
  · simp only [finish, store, way.catalogue, atFile, Extractor.addedMessages,
      Catalogue.addAll_append]
  · simp only [finish, store, way.messages, atFile, Extractor.addedMessages, List.length_append,
      Nat.zero_add]

end Extraction

namespace Extractor

variable {extractor : Extractor} {path : String} {nodes : List Node} {catalogue : Catalogue}
  {visits : Option Nat} {extraction : Extraction}

/-- What an extraction that comes to its end has gone through. -/
theorem exists_route_of_complete
    (run : extractor.run path nodes catalogue visits = (none, extraction))
    (complete : extraction.result.complete = true) :
    ∃ last, (routeThrough nodes).foldlM (Extraction.step extractor)
        { catalogue, result := { path }, visitsLeft := visits } = .ok last ∧
      extraction = last.finish := by
  simp only [Extractor.run] at run
  split at run
  · rename_i last ended
    cases run
    exact ⟨last, ended, rfl⟩
  · cases run
    cases complete
  · cases run

/-- An extraction that comes to its end has stored the messages of the trees in their order,
whatever its policy and however many visits it was given. -/
theorem catalogue_of_complete
    (run : extractor.run path nodes catalogue visits = (none, extraction))
    (complete : extraction.result.complete = true) :
    extraction.catalogue = catalogue.addAll (extractor.addedMessages path nodes) := by
  obtain ⟨last, ended, rfl⟩ := exists_route_of_complete run complete
  exact (Extraction.finish_route ended).1

end Extractor

end FormHarvest
