import FormHarvest.Proofs.FlaggedTrees
import FormHarvest.Proofs.LastDefault
import FormHarvest.Proofs.ParsedTrees
import FormHarvest.Proofs.StoppedRuns

namespace FormHarvest

namespace Extractor

variable (path : String) {one other : Extractor}

theorem storedMessages_append (extractor : Extractor) (first second : List Node) :
    extractor.storedMessages path (first ++ second)
      = extractor.storedMessages path first ++ extractor.storedMessages path second := by
  induction first with
  | nil => rw [storedMessages_nil, List.nil_append, List.nil_append]
  | cons node rest ih => simp only [List.cons_append, storedMessages_cons, ih, List.append_assoc]

theorem waitingEntries_append (extractor : Extractor) (first second : List Node) :
    extractor.waitingEntries path (first ++ second)
      = extractor.waitingEntries path first ++ extractor.waitingEntries path second := by
  simp only [waitingEntries, ownNodes_append, List.flatMap_append]

/-- Two extractors find the same in trees of their own: the same messages at the same places of their
sequences, the same default domain, and the same values that cannot be read. -/
structure FindsAlike (one other : Extractor) (nodes others : List Node) : Prop where
  stored : one.storedMessages path nodes = other.storedMessages path others
  waiting : one.waitingEntries path nodes = other.waitingEntries path others
  default : defaultDomainOf nodes = defaultDomainOf others
  noted : (walk nodes).flatMap (one.diagnosticsAt path) = (walk others).flatMap (other.diagnosticsAt path)

namespace FindsAlike

variable {path} {nodes others further rest : List Node}

theorem left (alike : FindsAlike path one other nodes others) :
    one.leftMessages path nodes = other.leftMessages path others := by
  rw [leftMessages, leftMessages, alike.waiting, alike.default]

theorem added (alike : FindsAlike path one other nodes others) :
    one.addedMessages path nodes = other.addedMessages path others := by
  rw [addedMessages, addedMessages, alike.stored, alike.left]

theorem nil : FindsAlike path one other [] [] where
  stored := by simp only [storedMessages_nil]
  waiting := by simp only [waitingEntries_nil]
  default := rfl
  noted := by simp only [walk_nil, List.flatMap_nil]

theorem append (first : FindsAlike path one other nodes others)
    (second : FindsAlike path one other further rest) :
    FindsAlike path one other (nodes ++ further) (others ++ rest) where
  stored := by rw [storedMessages_append, storedMessages_append, first.stored, second.stored]
  waiting := by rw [waitingEntries_append, waitingEntries_append, first.waiting, second.waiting]
  default := by rw [defaultDomainOf_append, defaultDomainOf_append, first.default, second.default]
  noted := by rw [walk_append, walk_append, List.flatMap_append, List.flatMap_append, first.noted, second.noted]

/-- Nodes that are read alike and have parts in which the same is found. -/
theorem cons {node twin : Node} (sameKind : node.isClassBody = twin.isClassBody)
    (sameDefault : node.defaultDomain? = twin.defaultDomain?)
    (sameReadings : one.readings path node = other.readings path twin)
    (sameNotes : one.diagnosticsAt path node = other.diagnosticsAt path twin)
    (inside : FindsAlike path one other node.children twin.children)
    (behind : FindsAlike path one other nodes others) :
    FindsAlike path one other (node :: nodes) (twin :: others) where
  stored := by
    rw [storedMessages_cons, storedMessages_cons, sameKind, sameReadings, inside.stored, inside.left, behind.stored]
  waiting := by
    rw [waitingEntries_cons, waitingEntries_cons, sameKind, sameReadings, inside.waiting, behind.waiting]
  default := by
    rw [defaultDomainOf_cons, defaultDomainOf_cons, sameKind, sameDefault, inside.default, behind.default]
  noted := by
    simp only [walk_cons, List.flatMap_cons, List.flatMap_append, sameNotes, inside.noted, behind.noted]

end FindsAlike

end Extractor

namespace Node

variable (flag : Mark)

/-- The parts of a node with flags are its parts with flags and perhaps a flag behind them. -/
theorem children_flagged (node : Node) :
    (node.flagged flag).children
      = node.children.map (flagged flag) ++ (flagsFor flag (node.arrayItems?.getD [])).map .item := by
  have part (found : Option Node) :
      (partFlagged flag found).toList = found.toList.map (flagged flag) := by
    cases found <;> rfl
  cases node with
  | array items mark =>
    simp only [flagged, children, itemsFlagged_eq_map, arrayItems?, Option.getD_some, List.map_append, List.map_map]
    congr 1
  | item content =>
    simp only [flagged, children, arrayItems?, Option.getD_none, flagsFor_nil, List.map_nil, List.append_nil,
      List.map_append, ArrayItem.key_itemFlagged, ArrayItem.value_itemFlagged, ← partFlagged_eq_map, part]
  | _ =>
    simp only [flagged, children, allFlagged_eq_map, arrayItems?, Option.getD_none, flagsFor_nil, List.map_nil,
      List.append_nil, List.map_append, List.map_cons, part]

theorem startsAtVariable_flagged (node : Node) :
    (node.flagged flag).startsAtVariable = node.startsAtVariable := by
  fun_induction startsAtVariable node with
  | case1 receiver name args mark ih => rw [flagged, startsAtVariable, ih]
  | case2 name mark => rw [flagged, startsAtVariable]
  | case3 node noCall noVariable =>
    cases node with
    | methodCall receiver name args mark => exact absurd rfl (noCall receiver name args mark)
    | «variable» name mark => exact absurd rfl (noVariable name mark)
    | _ => simp only [flagged, startsAtVariable]

theorem defaultDomain?_flagged (node : Node) : (node.flagged flag).defaultDomain? = node.defaultDomain? := by
  cases node with
  | methodCall receiver name args mark =>
    have given : ((args.map (flagged flag)).head?.bind arrayItems?).bind translationDomain?
        = (args.head?.bind arrayItems?).bind translationDomain? := by
      rw [List.head?_map, bind_arrayItems?_flagged, Option.bind_map]
      simp only [Function.comp_def, translationDomain?_itemsWithFlags]
    simp only [flagged, defaultDomain?, givesDefaults, startsAtVariable_flagged, allFlagged_eq_map, given]
    rfl
  | _ => rfl

/-- Two trees beside each other are as high as the higher one. -/
theorem height_append (first second : List Node) :
    height (first ++ second) = max (height first) (height second) := by
  induction first with
  | nil => simp only [List.nil_append, height, Nat.zero_max]
  | cons node rest ih => simp only [List.cons_append, height, ih, Nat.max_assoc]

theorem height_children_lt_of_mem {node : Node} {nodes : List Node} (member : node ∈ nodes) :
    height node.children < height nodes := by
  induction nodes with
  | nil => cases member
  | cons first rest ih =>
    rw [height]
    rcases List.mem_cons.mp member with rfl | member
    · omega
    · have behind := ih member
      omega

/-- A flag lies beside the item for whose sake it is there, and is no higher. -/
theorem height_flagsFor_le (items : List (ArrayItem Node)) :
    height ((flagsFor flag items).map .item) ≤ height (items.map .item) := by
  rw [flagsFor]
  split
  · rename_i has
    obtain ⟨item, member, named⟩ := List.any_eq_true.mp has
    obtain ⟨key, written, -⟩ := Option.bind_eq_some_iff.mp (beq_iff_eq.mp named)
    have part : key ∈ (Node.item item).children := by simp [children, written]
    have atItem := height_children_lt_of_mem (List.mem_map_of_mem (f := Node.item) member)
    have atKey := height_children_lt_of_mem part
    have atFlag : height ([choicesFlag flag].map Node.item) = 2 := by
      simp [height, children, choicesFlag]
    omega
  · simp only [List.map_nil, height, Nat.zero_le]

theorem height_map_flagged_le (nodes : List Node) : height (nodes.map (flagged flag)) ≤ height nodes := by
  induction nodes using forest_induction with
  | nil => exact Nat.le_refl _
  | cons node rest inside behind =>
    have flags : height ((flagsFor flag (node.arrayItems?.getD [])).map .item) ≤ height node.children := by
      cases found : node.arrayItems? with
      | none => simp only [Option.getD_none, flagsFor_nil, List.map_nil, height, Nat.zero_le]
      | some items =>
        obtain ⟨mark, rfl⟩ := eq_array_of_arrayItems? found
        exact height_flagsFor_le flag items
    rw [List.map_cons, height, height, children_flagged, height_append]
    omega

end Node

theorem unitless_map_flagged (flag : Mark) {nodes : List Node} (unitless : Unitless nodes) :
    Unitless (nodes.map (Node.flagged flag)) := by
  induction nodes using Node.forest_induction with
  | nil => exact .nil
  | cons node rest inside behind =>
    obtain ⟨noUnit, ofParts, ofRest⟩ := Unitless.cons.mp unitless
    rw [List.map_cons, Unitless.cons, Node.isSourceUnit_flagged, Node.children_flagged, Unitless.append]
    refine ⟨noUnit, ⟨inside ofParts, ?_⟩, behind ofRest⟩
    rw [flagsFor]
    split
    · simp [choicesFlag, Node.isSourceUnit, Node.children]
    · exact .nil

namespace Extractor

variable {extractor : Extractor} {path : String} {flag : Mark} {nodes : List Node}

theorem Visits.map_flagged (visits : extractor.Visits nodes) : extractor.Visits (nodes.map (Node.flagged flag)) where
  shallow := Nat.le_trans (Node.height_map_flagged_le flag nodes) visits.shallow
  noUnit := unitless_map_flagged flag visits.noUnit

/-- No choice and no group of choices in trees is named `choices`. -/
def NoneNamedChoices (nodes : List Node) : Prop :=
  ∀ node ∈ walk nodes, ∀ items ∈ node.arrayItems?, ChoicesArePlain items

instance (nodes : List Node) : Decidable (NoneNamedChoices nodes) :=
  inferInstanceAs (Decidable (∀ node ∈ walk nodes, ∀ items ∈ node.arrayItems?, _))

/-- An extractor that follows another convention. -/
def following (extractor : Extractor) (convention : ChoiceConvention) : Extractor := { extractor with convention }

theorem Visits.following (visits : extractor.Visits nodes) (convention : ChoiceConvention) :
    (extractor.following convention).Visits nodes :=
  ⟨visits.shallow, visits.noUnit⟩

section Flagged

variable {node : Node} (plain : ∀ items ∈ node.arrayItems?, ChoicesArePlain items)

include plain

theorem readings_flagged (convention : ChoiceConvention) :
    (extractor.following convention).readings path (node.flagged flag)
      = (extractor.following .current).readings path node := by
  simp only [readings, Node.arrayItems?_flagged]
  cases found : node.arrayItems? with
  | none => rfl
  | some items =>
    exact (readItem?_flagBlind flag path).filterMap_textItems (plain items found) convention extractor.isField

theorem diagnosticsAt_flagged (convention : ChoiceConvention) :
    (extractor.following convention).diagnosticsAt path (node.flagged flag)
      = (extractor.following .current).diagnosticsAt path node := by
  simp only [diagnosticsAt, Node.arrayItems?_flagged]
  cases found : node.arrayItems? with
  | none => rfl
  | some items =>
    exact (unreadable?_flagBlind flag path).filterMap_textItems (plain items found) convention extractor.isField

end Flagged

/-- Nothing is found in flags. -/
theorem findsAlike_flagsFor (flag : Mark) (one other : Extractor) (items : List (ArrayItem Node)) :
    FindsAlike path one other ((flagsFor flag items).map .item) [] := by
  rw [flagsFor]
  split
  · constructor <;>
      simp [choicesFlag, storedMessages_cons, waitingEntries_cons, defaultDomainOf_cons, walk_cons, readings,
        diagnosticsAt, Node.arrayItems?, Node.children, Node.isClassBody, Node.defaultDomain?]
  · exact .nil

/-- With flags either convention finds in trees what the current one finds without them. -/
theorem findsAlike_map_flagged (plain : NoneNamedChoices nodes) (convention : ChoiceConvention) :
    FindsAlike path (extractor.following convention) (extractor.following .current)
      (nodes.map (Node.flagged flag)) nodes := by
  induction nodes using Node.forest_induction with
  | nil => exact .nil
  | cons node rest inside behind =>
    have here := plain node (mem_walk_cons.mpr (.inl rfl))
    have parts : FindsAlike path (extractor.following convention) (extractor.following .current)
        (node.flagged flag).children node.children := by
      have together := (inside fun inner member => plain inner (mem_walk_cons.mpr (.inr (.inl member)))).append
        (findsAlike_flagsFor flag _ _ (node.arrayItems?.getD []))
      rwa [List.append_nil, ← Node.children_flagged] at together
    exact .cons (node.isClassBody_flagged flag) (node.defaultDomain?_flagged flag)
      (readings_flagged here convention) (diagnosticsAt_flagged here convention) parts
      (behind fun inner member => plain inner (mem_walk_cons.mpr (.inr (.inr member))))

/-- An extraction comes to its end, whatever catalogue it adds to. These are the messages that it adds, in
their order, and the diagnostics that it records. -/
structure Yields (extractor : Extractor) (path : String) (nodes : List Node) (stored : List Message)
    (noted : List Diagnostic) : Prop where
  messages : extractor.addedMessages path nodes = stored
  run (catalogue : Catalogue) : ∃ extraction, extractor.run path nodes catalogue = (none, extraction) ∧
    extraction.result.complete = true ∧
    Extraction.Adds { catalogue, result := { path } } extraction stored noted

theorem yields (goesOn : extractor.effectivePolicy = .goOn) (visits : extractor.Visits nodes) (path : String) :
    extractor.Yields path nodes (extractor.addedMessages path nodes)
      ((walk nodes).flatMap (extractor.diagnosticsAt path)) := by
  refine ⟨rfl, fun catalogue => ?_⟩
  obtain ⟨extraction, run, complete, added⟩ : ∃ extraction,
      extractor.run path nodes catalogue = (none, extraction) ∧ _ :=
    run_eq_addAll goesOn visits catalogue
  refine ⟨extraction, run, complete, ?_⟩
  obtain ⟨last, ended, rfl⟩ := exists_route_of_complete run complete
  have way := Extraction.route_adds rfl ended
  exact ⟨added, (Extraction.finish_route ended).2.1.trans (Nat.zero_add _).symm, way.diagnostics, way.path⟩

/-- **The conventions agree where labels are keys.** Where every option array with choices says that their
values are their labels' counterparts, and no choice or group is named `choices`, either convention adds the
messages and records the diagnostics of the current convention, which does not need to be told. -/
theorem conventions_agree (goesOn : extractor.effectivePolicy = .goOn) (visits : extractor.Visits nodes)
    (plain : NoneNamedChoices nodes) (path : String) (flag : Mark) :
    ∃ stored noted,
      (extractor.following .legacy).Yields path (nodes.map (Node.flagged flag)) stored noted ∧
      (extractor.following .current).Yields path (nodes.map (Node.flagged flag)) stored noted ∧
      (extractor.following .current).Yields path nodes stored noted := by
  have keepsOn (convention : ChoiceConvention) : (extractor.following convention).effectivePolicy = .goOn := goesOn
  have yieldsFlagged (convention : ChoiceConvention) :
      (extractor.following convention).Yields path (nodes.map (Node.flagged flag))
        ((extractor.following .current).addedMessages path nodes)
        ((walk nodes).flatMap ((extractor.following .current).diagnosticsAt path)) := by
    have alike : FindsAlike path (extractor.following convention) (extractor.following .current)
        (nodes.map (Node.flagged flag)) nodes := findsAlike_map_flagged plain convention
    rw [← alike.added, ← alike.noted]
    exact yields (keepsOn convention) (visits.map_flagged.following convention) path
  exact ⟨_, _, yieldsFlagged .legacy, yieldsFlagged .current,
    yields (keepsOn .current) (visits.following .current) path⟩

/-- A field with choices, a group among them, and with a label that cannot be read. -/
def genderField : List Node :=
  let text (value : String) : Node := .string value false { line := 4 }
  let pair (key : String) (value : Node) : ArrayItem Node :=
    { key := some (text key), value := some value, mark := { line := 4 } }
  let choices : List (ArrayItem Node) :=
    [pair "Female" (text "f"), pair "Further" (.array [pair "Unknown" (text "u")] { line := 4 })]
  [.classBody "PersonType" [
    .methodCall (.variable "$builder" { line := 4 }) "add" [.array [
      pair "choices" (.array choices { line := 4 }),
      pair "label" (.variable "$label" { line := 4 }),
      pair "placeholder" (text "Choose")] { line := 4 }] { line := 4 }] { line := 2 }]

/-- Without the flag the legacy convention takes the values for the labels. -/
theorem genderField_agrees :
    ∃ stored noted,
      (goingOn.following .legacy).Yields "PersonType.php" (genderField.map (Node.flagged {})) stored noted ∧
      (goingOn.following .current).Yields "PersonType.php" (genderField.map (Node.flagged {})) stored noted ∧
      (goingOn.following .current).Yields "PersonType.php" genderField stored noted ∧
      stored.map Message.id = ["Female", "Unknown", "Further", "Choose"] ∧
      ((goingOn.following .legacy).addedMessages "PersonType.php" genderField).map Message.id
        = ["f", "u", "Choose"] := by
  have visits : goingOn.Visits genderField := ⟨by decide +kernel, by decide +kernel⟩
  have plain : NoneNamedChoices genderField := by decide +kernel
  obtain ⟨stored, noted, legacy, current, untold⟩ :=
    conventions_agree (show goingOn.effectivePolicy = .goOn from rfl) visits plain "PersonType.php" {}
  refine ⟨stored, noted, legacy, current, untold, ?_, by decide +kernel⟩
  rw [← untold.messages]
  decide +kernel

end Extractor

end FormHarvest
