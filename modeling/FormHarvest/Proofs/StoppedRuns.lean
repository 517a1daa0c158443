import FormHarvest.Proofs.Merging
import FormHarvest.Proofs.NotedDiagnostics

namespace FormHarvest

/-- Every tree has its own root among its nodes. -/
theorem length_walk_singleton (node : Node) :
    (walk [node]).length = (walk node.children).length + 1 := by
  rw [walk_cons, walk_nil, List.append_nil, List.length_cons]

theorem length_walk_cons (node : Node) (rest : List Node) :
    (walk (node :: rest)).length = (walk [node]).length + (walk rest).length := by
  rw [length_walk_singleton, walk_cons, List.length_cons, List.length_append]
  omega

/-- The first nodes of trees are those of the first tree, from its root down, and then those of the
trees behind it. -/
theorem take_walk_cons (visits : Nat) (node : Node) (rest : List Node) :
    (walk (node :: rest)).take visits
      = [node].take visits ++ (walk node.children).take (visits - 1)
        ++ (walk rest).take (visits - (walk [node]).length) := by
  rw [walk_cons, length_walk_singleton]
  cases visits with
  | zero => simp only [List.take_zero, Nat.zero_sub, List.append_nil]
  | succ left =>
    rw [List.take_succ_cons, List.take_append, List.take_succ_cons, List.take_nil,
      Nat.add_sub_cancel, Nat.add_sub_add_right]
    rfl

/-- The contents of a node that is a class which is left within a number of visits: its nodes, which
stand behind each other in the order of reading, are all among those that were visited. -/
def classLeft? (visits : Nat) (node : Node) (before : Nat) : Option (List Node) :=
  if node.isClassBody ∧ before + (walk [node]).length ≤ visits then some node.children else none

/-- The contents of the classes of trees that are left within a number of visits. -/
def classesLeft (visits : Nat) (nodes : List Node) : List (List Node) :=
  (walk nodes).zipIdx.filterMap fun standing => classLeft? visits standing.1 standing.2

@[simp] theorem classesLeft_nil (visits : Nat) : classesLeft visits [] = [] := by
  rw [classesLeft, walk_nil]
  rfl

/-- With nodes in front fewer visits remain. -/
theorem filterMap_classLeft?_zipIdx (front visits : Nat) (nodes : List Node) :
    ((walk nodes).zipIdx front).filterMap (fun standing => classLeft? visits standing.1 standing.2)
      = classesLeft (visits - front) nodes := by
  have shifted (node : Node) (before : Nat) :
      classLeft? visits node (front + before) = classLeft? (visits - front) node before := by
    have size := length_walk_singleton node
    have same : front + before + (walk [node]).length ≤ visits ↔
        before + (walk [node]).length ≤ visits - front := by omega
    simp only [classLeft?, same]
  rw [classesLeft, List.zipIdx_eq_map_add, List.filterMap_map]
  simp only [Function.comp_def, shifted]

theorem classesLeft_cons (visits : Nat) (node : Node) (rest : List Node) :
    classesLeft visits (node :: rest)
      = (classLeft? visits node 0).toList ++ classesLeft (visits - 1) node.children
        ++ classesLeft (visits - (walk [node]).length) rest := by
  have behind : 0 + 1 + (walk node.children).length = (walk [node]).length := by
    rw [length_walk_singleton]
    omega
  rw [classesLeft, walk_cons, List.zipIdx_cons, List.zipIdx_append, behind, List.filterMap_cons,
    List.filterMap_append, filterMap_classLeft?_zipIdx, filterMap_classLeft?_zipIdx]
  cases classLeft? visits node 0 <;> rfl

namespace Extractor

variable (extractor : Extractor) (path : String)

/-- The messages that a node stores at once. -/
def fixedMessages (node : Node) : List Message :=
  (extractor.readings path node).filterMap TextReading.fixed?

/-- The messages that are stored on the way through trees within a number of visits. -/
def messagesWithin (visits : Nat) : List Node → List Message
  | [] => []
  | node :: rest =>
    ([node].take visits).flatMap (extractor.fixedMessages path)
      ++ messagesWithin (visits - 1) node.children
      ++ (if node.isClassBody ∧ (walk [node]).length ≤ visits then
            extractor.leftMessages path node.children else [])
      ++ messagesWithin (visits - (walk [node]).length) rest
termination_by nodes => Node.totalSize nodes
decreasing_by
  · exact Node.totalSize_children_lt_cons node rest
  · exact Node.totalSize_lt_cons node rest

@[simp] theorem messagesWithin_nil (visits : Nat) : extractor.messagesWithin path visits [] = [] := by
  rw [messagesWithin]

/-- Visits store the texts with a fixed domain of the nodes that are visited, and the texts that wait
in the classes that are left. -/
theorem messagesWithin_perm (visits : Nat) (nodes : List Node) :
    (extractor.messagesWithin path visits nodes).Perm
      (((walk nodes).take visits).flatMap (extractor.fixedMessages path)
        ++ (classesLeft visits nodes).flatMap (extractor.leftMessages path)) := by
  induction nodes using Node.forest_induction generalizing visits with
  | nil => simp only [messagesWithin_nil, walk_nil, List.take_nil, classesLeft_nil, List.flatMap_nil,
      List.append_nil, List.Perm.refl]
  | cons node rest inside behind =>
    have close : (classLeft? visits node 0).toList.flatMap (extractor.leftMessages path)
        = if node.isClassBody ∧ (walk [node]).length ≤ visits then
            extractor.leftMessages path node.children else [] := by
      rw [classLeft?, Nat.zero_add]
      split
      · exact List.append_nil _
      · rfl
    rw [messagesWithin, take_walk_cons, classesLeft_cons]
    have atParts := inside (visits - 1)
    have atOthers := behind (visits - (walk [node]).length)
    rw [List.perm_iff_count] at atParts atOthers ⊢
    intro message
    have countParts := atParts message
    have countOthers := atOthers message
    simp only [List.flatMap_append, List.count_append, close] at countParts countOthers ⊢
    omega

/-- Without visits nothing is stored. -/
theorem messagesWithin_zero (nodes : List Node) : extractor.messagesWithin path 0 nodes = [] := by
  induction nodes using Node.forest_induction with
  | nil => exact messagesWithin_nil ..
  | cons node rest inside behind =>
    have notLeft : ¬(walk [node]).length ≤ 0 := by
      rw [length_walk_singleton]
      omega
    rw [messagesWithin, Nat.zero_sub, Nat.zero_sub, inside, behind, List.take_zero, if_neg (notLeft ·.2)]
    rfl

/-- Visits that are enough for the first tree store what lies in it and go on behind it. -/
theorem messagesWithin_cons_of_le {visits : Nat} {node : Node} (rest : List Node)
    (whole : (walk [node]).length ≤ visits) :
    extractor.messagesWithin path visits (node :: rest)
      = extractor.fixedMessages path node
        ++ extractor.messagesWithin path (visits - 1) node.children
        ++ (if node.isClassBody then extractor.leftMessages path node.children else [])
        ++ extractor.messagesWithin path (visits - (walk [node]).length) rest := by
  have visited : [node].take visits = [node] := by
    rw [length_walk_singleton] at whole
    exact List.take_of_length_le (by rw [List.length_singleton]; omega)
  rw [messagesWithin, visited]
  simp only [whole, and_true, List.flatMap_cons, List.flatMap_nil, List.append_nil]

/-- Visits that end in the first tree store nothing else. -/
theorem messagesWithin_cons_of_lt {left : Nat} {node : Node} (rest : List Node)
    (cut : left < (walk node.children).length) :
    extractor.messagesWithin path (left + 1) (node :: rest)
      = extractor.fixedMessages path node ++ extractor.messagesWithin path left node.children := by
  have size := length_walk_singleton node
  have notLeft : ¬(node.isClassBody ∧ (walk [node]).length ≤ left + 1) := fun ⟨_, whole⟩ => by omega
  have noMore : left + 1 - (walk [node]).length = 0 := by omega
  rw [messagesWithin, if_neg notLeft, noMore, messagesWithin_zero, Nat.add_sub_cancel,
    List.append_nil, List.append_nil, List.take_succ_cons, List.take_nil]
  rw [List.flatMap_cons, List.flatMap_nil, List.append_nil]

/-- Visits that are enough for all nodes store what the whole way stores. -/
theorem messagesWithin_of_le {visits : Nat} {nodes : List Node}
    (whole : (walk nodes).length ≤ visits) :
    extractor.messagesWithin path visits nodes = extractor.storedMessages path nodes := by
  induction nodes using Node.forest_induction generalizing visits with
  | nil => rw [messagesWithin_nil, storedMessages_nil]
  | cons node rest inside behind =>
    rw [length_walk_cons] at whole
    have size := length_walk_singleton node
    rw [messagesWithin_cons_of_le extractor path rest (by omega), storedMessages_cons,
      inside (by omega), behind (by omega), fixedMessages]

theorem messagesWithin_append_of_le {visits : Nat} {first : List Node}
    (whole : (walk first).length ≤ visits) (second : List Node) :
    extractor.messagesWithin path visits (first ++ second)
      = extractor.storedMessages path first
        ++ extractor.messagesWithin path (visits - (walk first).length) second := by
  induction first generalizing visits with
  | nil => simp only [List.nil_append, storedMessages_nil, walk_nil, List.length_nil, Nat.sub_zero]
  | cons node rest ih =>
    have size := length_walk_singleton node
    rw [length_walk_cons] at whole ⊢
    rw [List.cons_append, messagesWithin_cons_of_le extractor path _ (by omega), ih (by omega),
      storedMessages_cons, messagesWithin_of_le extractor path (by omega), fixedMessages,
      Nat.sub_sub]
    simp only [List.append_assoc]

/-- Visits in the midst of the way store the beginning of what the whole way stores. -/
theorem messagesWithin_prefix_storedMessages (visits : Nat) (nodes : List Node) :
    extractor.messagesWithin path visits nodes <+: extractor.storedMessages path nodes := by
  induction nodes using Node.forest_induction generalizing visits with
  | nil => rw [messagesWithin_nil]; exact List.nil_prefix
  | cons node rest inside behind =>
    have size := length_walk_singleton node
    rw [storedMessages_cons]
    by_cases whole : (walk [node]).length ≤ visits
    · rw [messagesWithin_cons_of_le extractor path rest whole,
        messagesWithin_of_le extractor path (by omega), fixedMessages]
      exact (List.prefix_append_right_inj _).mpr (behind _)
    · cases visits with
      | zero => rw [messagesWithin_zero]; exact List.nil_prefix
      | succ left =>
        rw [messagesWithin_cons_of_lt extractor path rest (by omega), List.append_assoc,
          List.append_assoc, fixedMessages]
        exact (List.prefix_append_right_inj _).mpr ((inside left).trans (List.prefix_append _ _))

end Extractor

namespace Extraction

/-- What an extraction does to the catalogue and to the result on a part of its way. The scopes and
the visits that are left are not looked at. -/
structure Adds (before after : Extraction) (stored : List Message) (noted : List Diagnostic) :
    Prop where
  catalogue : after.catalogue = before.catalogue.addAll stored
  messages : after.result.messages = before.result.messages + stored.length
  diagnostics : after.result.diagnostics = before.result.diagnostics ++ noted
  path : after.result.path = before.result.path

namespace Adds

theorem nothing (before : Extraction) : Adds before before [] [] where
  catalogue := rfl
  messages := rfl
  diagnostics := (List.append_nil _).symm
  path := rfl

theorem trans {first middle last : Extraction} {stored later : List Message}
    {noted further : List Diagnostic} (one : Adds first middle stored noted)
    (two : Adds middle last later further) : Adds first last (stored ++ later) (noted ++ further) where
  catalogue := by rw [two.catalogue, one.catalogue, Catalogue.addAll_append]
  messages := by rw [two.messages, one.messages, List.length_append, Nat.add_assoc]
  diagnostics := by rw [two.diagnostics, one.diagnostics, List.append_assoc]
  path := two.path.trans one.path

end Adds

variable {extractor : Extractor} {before after : Extraction} {path : String}

/-- A visit stores the messages of the node whose domain is fixed, and notes what cannot be read. -/
theorem step_visit_adds {depth : Nat} {node : Node} (samePath : before.result.path = path)
    (run : step extractor before (.visit depth node) = .ok after) :
    Adds before after (extractor.fixedMessages path node) (extractor.diagnosticsAt path node) := by
  subst samePath
  obtain ⟨middle, more, visited⟩ := step_visit_eq_ok run
  have noted := step_notes run
  by_cases isClass : node.isClassBody
  · have nothing : extractor.fixedMessages before.result.path node = [] := by
      rw [Extractor.fixedMessages, extractor.readings_of_isClassBody _ isClass, List.filterMap_nil]
    rw [nothing]
    cases node <;> cases isClass
    cases visited
    exact ⟨more.catalogue, more.messages, noted, more.path⟩
  · have together := more.trans (visit_brings isClass visited)
    rw [more.path] at together
    exact ⟨together.catalogue, together.messages, noted, together.path⟩

/-- A way that is gone to its end stores the messages of the trees and notes what cannot be read. -/
theorem route_adds {nodes : List Node} {depth : Nat} (samePath : before.result.path = path)
    (run : (route (nodes.map (.visit depth))).foldlM (step extractor) before = .ok after) :
    Adds before after (extractor.storedMessages path nodes)
      ((walk nodes).flatMap (extractor.diagnosticsAt path)) := by
  have way := route_brings samePath run
  have noted := foldlM_step_notes run
  rw [samePath, extractor.flatMap_diagnosticsOn_route] at noted
  exact ⟨way.catalogue, way.messages, noted, way.path⟩

/-- Trees that stand within a number of nodes and that an extraction can go through. -/
structure Passable (extractor : Extractor) (depth : Nat) (nodes : List Node) : Prop where
  shallow : depth + Node.height nodes ≤ extractor.maxDepth
  noUnit : ∀ node ∈ walk nodes, node.isSourceUnit = false

namespace Passable

variable {depth : Nat} {node : Node} {rest : List Node} (passable : Passable extractor depth (node :: rest))

include passable

theorem height_le : depth + max (Node.height node.children + 1) (Node.height rest) ≤ extractor.maxDepth := by
  have shallow := passable.shallow
  rwa [Node.height] at shallow

theorem root_shallow : depth < extractor.maxDepth := by
  have shallow := passable.height_le
  omega

theorem first : Passable extractor depth [node] where
  shallow := by
    have shallow := passable.height_le
    rw [Node.height, Node.height]
    omega
  noUnit inner member :=
    passable.noUnit inner (mem_walk_trans (mem_walk_of_mem List.mem_cons_self) member)

theorem parts : Passable extractor (depth + 1) node.children where
  shallow := by
    have shallow := passable.height_le
    omega
  noUnit inner member := passable.noUnit inner (mem_walk_cons.mpr (.inr (.inl member)))

theorem behind : Passable extractor depth rest where
  shallow := by
    have shallow := passable.height_le
    omega
  noUnit inner member := passable.noUnit inner (mem_walk_cons.mpr (.inr (.inr member)))

end Passable

/-- A class can be left wherever the extraction stands. -/
theorem step_leave_eq_ok (extractor : Extractor) (before : Extraction) :
    ∃ after, step extractor before .leave = .ok after ∧ after.visitsLeft = before.visitsLeft := by
  simp only [step]
  split
  · exact ⟨_, rfl, rfl⟩
  · exact ⟨_, rfl, rfl⟩

section Left

variable (goesOn : extractor.effectivePolicy = .goOn) {depth visits : Nat} {nodes : List Node}

include goesOn

/-- A visit that is still left leads to a node. -/
theorem step_visit_eq_ok_of_left {node : Node} {rest : List Node}
    (passable : Passable extractor depth (node :: rest)) (left : before.visitsLeft = some (visits + 1)) :
    ∃ after, step extractor before (.visit depth node) = .ok after ∧
      after.visitsLeft = some visits := by
  have more : before.takeVisit? = some { before with visitsLeft := some visits } := by
    simp only [takeVisit?, left]
  obtain ⟨after, visited, same⟩ :=
    ({ before with visitsLeft := some visits } : Extraction).visit_eq_ok goesOn passable.first.noUnit
  refine ⟨after, ?_, same⟩
  simp only [step, if_neg (Nat.not_le.mpr passable.root_shallow), more, visited]

/-- As many visits as there are nodes are enough to go the whole way. -/
theorem route_eq_ok (passable : Passable extractor depth nodes) (left : before.visitsLeft = some visits)
    (enough : (walk nodes).length ≤ visits) :
    ∃ after, (route (nodes.map (.visit depth))).foldlM (step extractor) before = .ok after ∧
      after.visitsLeft = some (visits - (walk nodes).length) := by
  induction nodes using Node.forest_induction generalizing depth visits before with
  | nil => exact ⟨before, by rw [List.map_nil, route_nil]; rfl, by rw [left, walk_nil]; rfl⟩
  | cons node rest inside behind =>
    rw [length_walk_cons, length_walk_singleton] at enough ⊢
    obtain ⟨visits, rfl⟩ : ∃ more, visits = more + 1 := ⟨visits - 1, by omega⟩
    obtain ⟨entered, entering, leftEntered⟩ := step_visit_eq_ok_of_left goesOn passable left
    obtain ⟨within, parts, leftWithin⟩ := inside passable.parts leftEntered (by omega)
    obtain ⟨closed, closing, leftClosed⟩ : ∃ closed,
        (if node.isClassBody then [Waypoint.leave] else []).foldlM (step extractor) within
          = .ok closed ∧ closed.visitsLeft = within.visitsLeft := by
      split
      · obtain ⟨closed, leave, leftClosed⟩ := step_leave_eq_ok extractor within
        exact ⟨closed, foldlM_cons_eq_ok_iff.mpr ⟨closed, leave, rfl⟩, leftClosed⟩
      · exact ⟨within, rfl, rfl⟩
    obtain ⟨last, others, leftLast⟩ :=
      behind passable.behind (leftClosed.trans leftWithin) (by omega)
    refine ⟨last, ?_, ?_⟩
    · have enter : [Waypoint.visit depth node].foldlM (step extractor) before = .ok entered :=
        foldlM_cons_eq_ok_iff.mpr ⟨entered, entering, rfl⟩
      rw [route_visits_cons, List.append_assoc, List.append_assoc, foldlM_append_of_ok enter,
        foldlM_append_of_ok parts, foldlM_append_of_ok closing, others]
    · rw [leftLast]
      congr 1
      omega

/-- Fewer visits than there are nodes end in a stop, behind what they store and note. -/
theorem route_stops (passable : Passable extractor depth nodes) (samePath : before.result.path = path)
    (left : before.visitsLeft = some visits) (few : visits < (walk nodes).length) :
    ∃ after, (route (nodes.map (.visit depth))).foldlM (step extractor) before
        = .error (.stopped, after) ∧
      Adds before after (extractor.messagesWithin path visits nodes)
        (((walk nodes).take visits).flatMap (extractor.diagnosticsAt path)) := by
  induction nodes using Node.forest_induction generalizing depth visits before with
  | nil =>
    rw [walk_nil] at few
    cases few
  | cons node rest inside behind =>
    have size := length_walk_singleton node
    rw [length_walk_cons] at few
    by_cases whole : (walk [node]).length ≤ visits
    · obtain ⟨middle, first, leftMiddle⟩ := route_eq_ok goesOn passable.first left whole
      have atFirst := route_adds samePath first
      obtain ⟨after, stop, atOthers⟩ :=
        behind passable.behind (atFirst.path.trans samePath) leftMiddle (by omega)
      refine ⟨after, ?_, ?_⟩
      · rw [← List.singleton_append, List.map_append, route_append, foldlM_append_of_ok first, stop]
      · rw [← List.singleton_append, extractor.messagesWithin_append_of_le path whole, walk_append,
          List.take_append, List.take_of_length_le whole, List.flatMap_append]
        exact atFirst.trans atOthers
    · cases visits with
      | zero =>
        refine ⟨before, ?_, ?_⟩
        · have stop : step extractor before (.visit depth node) = .error (.stopped, before) := by
            simp only [step, if_neg (Nat.not_le.mpr passable.root_shallow), takeVisit?, left]
          rw [List.map_cons, route, List.foldlM_cons, stop]
          rfl
        · rw [extractor.messagesWithin_zero, List.take_zero]
          exact .nothing before
      | succ left =>
        obtain ⟨entered, entering, leftEntered⟩ := step_visit_eq_ok_of_left goesOn passable left
        have atNode := step_visit_adds samePath entering
        obtain ⟨after, stop, atParts⟩ :=
          inside passable.parts (atNode.path.trans samePath) leftEntered (by omega)
        refine ⟨after, ?_, ?_⟩
        · have enter : [Waypoint.visit depth node].foldlM (step extractor) before = .ok entered :=
            foldlM_cons_eq_ok_iff.mpr ⟨entered, entering, rfl⟩
          rw [route_visits_cons, List.append_assoc, List.append_assoc, foldlM_append_of_ok enter,
            foldlM_append_of_error stop]
        · rw [extractor.messagesWithin_cons_of_lt path rest (by omega), walk_cons,
            List.take_succ_cons, List.take_append_of_le_length (by omega), List.flatMap_cons]
          exact atNode.trans atParts

end Left

end Extraction

namespace Extractor

variable {extractor : Extractor} {path : String} {nodes : List Node} {catalogue : Catalogue}

/-- What a run that is stopped after a number of visits leaves, beside the run that is not stopped:
of its messages and diagnostics the beginning. The messages are those with a fixed domain in the
nodes that were visited and those that waited in the classes that were left; those that wait in a
class that is still open, or outside of all classes, are not among them. -/
structure Truncated (extractor : Extractor) (path : String) (nodes : List Node) (visits : Nat)
    (catalogue : Catalogue) (full stopped : Extraction) (stored : List Message) : Prop where
  catalogue : stopped.catalogue = catalogue.addAll stored
  messages : stopped.result.messages = stored.length
  isPrefix : stored <+: extractor.addedMessages path nodes
  perm : stored.Perm
    (((walk nodes).take visits).flatMap (extractor.fixedMessages path)
      ++ (classesLeft visits nodes).flatMap (extractor.leftMessages path)
      ++ if (walk nodes).length ≤ visits then extractor.leftMessages path nodes else [])
  diagnostics : stopped.result.diagnostics
    = ((walk nodes).take visits).flatMap (extractor.diagnosticsAt path)
  isPrefix_diagnostics : stopped.result.diagnostics <+: full.result.diagnostics
  incomplete : stopped.result.complete = false ↔ visits < (walk nodes).length

/-- A run that is stopped after a number of visits is the beginning of the run that is not stopped. -/
theorem run_stopped_truncated (goesOn : extractor.effectivePolicy = .goOn) (possible : extractor.Visits nodes)
    (path : String) (catalogue : Catalogue) (visits : Nat) :
    ∃ full stopped stored,
      extractor.run path nodes catalogue = (none, full) ∧ full.result.complete = true ∧
      full.catalogue = catalogue.addAll (extractor.addedMessages path nodes) ∧
      extractor.run path nodes catalogue (some visits) = (none, stopped) ∧
      Truncated extractor path nodes visits catalogue full stopped stored := by
  obtain ⟨full, fullRun, complete, added⟩ : ∃ full,
      extractor.run path nodes catalogue = (none, full) ∧ _ :=
    run_eq_addAll goesOn possible catalogue
  have noted : full.result.diagnostics = (walk nodes).flatMap (extractor.diagnosticsAt path) := by
    obtain ⟨last, ended, rfl⟩ := exists_route_of_complete fullRun complete
    exact (Extraction.route_adds rfl ended).diagnostics
  have passable : Extraction.Passable extractor 0 nodes := ⟨Nat.zero_add _ ▸ possible.shallow, possible.noUnit⟩
  have beginning : ((walk nodes).take visits).flatMap (extractor.diagnosticsAt path)
      <+: full.result.diagnostics :=
    ⟨((walk nodes).drop visits).flatMap (extractor.diagnosticsAt path), by
      rw [noted, ← List.flatMap_append, List.take_append_drop]⟩
  have within := extractor.messagesWithin_perm path visits nodes
  have left : ({ catalogue, result := { path }, visitsLeft := some visits } : Extraction).visitsLeft
      = some visits := rfl
  rcases Nat.lt_or_ge visits (walk nodes).length with few | enough
  · obtain ⟨after, stop, adds⟩ := Extraction.route_stops goesOn passable rfl left few
    refine ⟨full, after.stop, extractor.messagesWithin path visits nodes, fullRun, complete, added, ?_,
      { catalogue := adds.catalogue
        messages := adds.messages.trans (Nat.zero_add _)
        isPrefix := ?_
        perm := ?_
        diagnostics := adds.diagnostics
        isPrefix_diagnostics := ?_
        incomplete := iff_of_true rfl few }⟩
    · simp only [Extractor.run, routeThrough, stop]
    · exact (extractor.messagesWithin_prefix_storedMessages path visits nodes).trans
        (List.prefix_append _ _)
    · rw [if_neg (Nat.not_le.mpr few), List.append_nil]
      exact within
    · exact adds.diagnostics ▸ beginning
  · obtain ⟨last, ended, -⟩ := Extraction.route_eq_ok goesOn passable left enough
    obtain ⟨stored, messages, atEnd⟩ := Extraction.finish_route ended
    have adds := Extraction.route_adds rfl ended
    refine ⟨full, last.finish, extractor.addedMessages path nodes, fullRun, complete, added, ?_,
      { catalogue := stored
        messages
        isPrefix := List.prefix_rfl
        perm := ?_
        diagnostics := ?_
        isPrefix_diagnostics := ?_
        incomplete := iff_of_false ?_ (Nat.not_lt.mpr enough) }⟩
    · simp only [Extractor.run, routeThrough, ended]
    · rw [messagesWithin_of_le extractor path enough] at within
      rw [if_pos enough, addedMessages]
      exact within.append_right _
    · rw [List.take_of_length_le enough]
      exact adds.diagnostics
    · rw [noted]
      exact adds.diagnostics ▸ List.prefix_rfl
    · rw [atEnd]
      exact Bool.true_eq_false.mp

/-- A class with a label that waits for the default domain, which is given behind it. -/
def formClass (name label domain : String) (line : Int) : Node :=
  let options (key value : String) (line : Int) : Node :=
    .array [⟨some (.string key false ⟨line, none⟩), some (.string value false ⟨line, none⟩), false,
      false, ⟨line, none⟩⟩] ⟨line, none⟩
  .classBody name [
    .methodCall (.variable "$builder" ⟨line + 1, none⟩) "add" [options "label" label (line + 1)]
      ⟨line + 1, none⟩,
    .methodCall (.variable "$resolver" ⟨line + 2, none⟩) "setDefaults"
      [options "translation_domain" domain (line + 2)] ⟨line + 2, none⟩] ⟨line, none⟩

/-- Two classes behind each other, of thirteen nodes each. -/
def twoForms : List Node :=
  [formClass "PersonType" "Name" "person" 2, formClass "AddressType" "Street" "address" 6]

/-- A stop in the second class leaves the label of the first class under its domain; the label of the
second class, which was read, is not stored. -/
theorem twoForms_truncated :
    ∃ full stopped stored,
      goingOn.run "Forms.php" twoForms .empty = (none, full) ∧
      goingOn.run "Forms.php" twoForms .empty (some 20) = (none, stopped) ∧
      stopped.result.complete = false ∧ stopped.result.deferred = 2 ∧
      stopped.catalogue = Catalogue.empty.addAll stored ∧
      stored = [{ id := "Name", domain := some "person", places := [⟨"Forms.php", 3⟩] }] := by
  have possible : goingOn.Visits twoForms := ⟨by decide +kernel, by decide +kernel⟩
  obtain ⟨full, stopped, stored, fullRun, -, -, stoppedRun, truncated⟩ :=
    run_stopped_truncated (show goingOn.effectivePolicy = .goOn from rfl) possible "Forms.php" .empty 20
  have few : 20 < (walk twoForms).length := by decide +kernel
  refine ⟨full, stopped, stored, fullRun, stoppedRun, truncated.incomplete.mpr few, ?_,
    truncated.catalogue, List.perm_singleton.mp (truncated.perm.trans (.of_eq ?_))⟩
  · rw [← congrArg (·.2.result.deferred) stoppedRun]
    decide +kernel
  · decide +kernel

end Extractor

end FormHarvest
