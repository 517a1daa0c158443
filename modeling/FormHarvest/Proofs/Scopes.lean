import FormHarvest.Extraction.Extractor
import FormHarvest.Proofs.Spots

namespace FormHarvest

/-- The nodes of trees that have no class of the trees around them, in the order of reading. A
class is listed itself, what stands inside it is not. -/
def ownNodes : List Node → List Node
  | [] => []
  | node :: rest => node :: (if node.isClassBody then [] else ownNodes node.children) ++ ownNodes rest
termination_by nodes => Node.totalSize nodes
decreasing_by
  · exact Node.totalSize_children_lt_cons node rest
  · exact Node.totalSize_lt_cons node rest

/-- The default domain of a class or a file with some content: that of the last call in the order
of reading which gives one and stands in no further class. -/
def defaultDomainOf (scope : List Node) : Option String :=
  ((ownNodes scope).filterMap Node.defaultDomain?).getLast?

@[simp] theorem ownNodes_nil : ownNodes [] = [] := by rw [ownNodes]

theorem ownNodes_cons (node : Node) (rest : List Node) :
    ownNodes (node :: rest)
      = node :: (if node.isClassBody then [] else ownNodes node.children) ++ ownNodes rest := by
  rw [ownNodes]

theorem ownNodes_sublist_walk (nodes : List Node) : (ownNodes nodes).Sublist (walk nodes) := by
  induction nodes using Node.forest_induction with
  | nil => simp only [ownNodes_nil, walk_nil, List.Sublist.refl]
  | cons node rest inside behind =>
    rw [ownNodes_cons, walk_cons, List.cons_append]
    refine .cons_cons node (.append ?_ behind)
    split
    · exact List.nil_sublist _
    · exact inside

@[simp] theorem defaultDomainOf_nil : defaultDomainOf [] = none := by
  simp only [defaultDomainOf, ownNodes_nil, List.filterMap_nil, List.getLast?_nil]

/-- Later trees decide first, then the parts of a node, then the node. -/
theorem defaultDomainOf_cons (node : Node) (rest : List Node) :
    defaultDomainOf (node :: rest)
      = (defaultDomainOf rest).or
          ((if node.isClassBody then none else defaultDomainOf node.children).or node.defaultDomain?) := by
  have first : (([node].filterMap Node.defaultDomain?).getLast?) = node.defaultDomain? := by
    cases known : node.defaultDomain? <;> simp [known]
  have parts : ownNodes (node :: rest)
      = [node] ++ (if node.isClassBody then [] else ownNodes node.children) ++ ownNodes rest := by
    rw [ownNodes_cons]; rfl
  rw [defaultDomainOf, parts, List.filterMap_append, List.filterMap_append, List.getLast?_append,
    List.getLast?_append, first]
  by_cases inside : node.isClassBody
  · simp only [inside, if_true, List.filterMap_nil, List.getLast?_nil, defaultDomainOf]
  · simp only [inside, if_false, defaultDomainOf, Bool.false_eq_true]

/-- A text that was read from an option array: the entry, and its domain if the array fixes one. -/
structure TextReading where
  entry : Entry
  domain : Option String

namespace TextReading

/-- The message of a text when its class has a default domain. -/
def under (reading : TextReading) (default : Option String) : Message :=
  reading.entry.inDomain (reading.domain.or default)

/-- The message of a text whose array fixes a domain; it is stored at once. -/
def fixed? (reading : TextReading) : Option Message :=
  reading.domain.map fun domain => reading.entry.inDomain (some domain)

/-- The entry of a text that waits for the default domain of its class. -/
def waiting? (reading : TextReading) : Option Entry :=
  if reading.domain.isNone then some reading.entry else none

theorem map_under_perm (default : Option String) (readings : List TextReading) :
    (readings.map (·.under default)).Perm
      (readings.filterMap fixed? ++ (readings.filterMap waiting?).map (·.inDomain default)) := by
  induction readings with
  | nil => exact .nil
  | cons reading rest ih =>
    obtain ⟨entry, domain⟩ := reading
    cases domain with
    | some domain =>
      simp only [List.map_cons, under, Option.some_or, List.filterMap_cons, fixed?, Option.map_some,
        waiting?, Option.isNone_some, Bool.false_eq_true, if_false, List.cons_append]
      exact .cons _ ih
    | none =>
      simp only [List.map_cons, under, Option.none_or, List.filterMap_cons, fixed?, Option.map_none,
        waiting?, Option.isNone_none, if_true]
      exact (List.Perm.cons _ ih).trans List.perm_middle.symm

end TextReading

theorem Finding.foldl_withDirective (directives : List Directive) (entry : Entry) :
    (directives.foldl withDirective entry).id = entry.id ∧
      (directives.foldl withDirective entry).place = entry.place := by
  induction directives generalizing entry with
  | nil => exact ⟨rfl, rfl⟩
  | cons directive rest ih =>
    obtain ⟨sameId, samePlace⟩ := ih (withDirective entry directive)
    rw [List.foldl_cons, sameId, samePlace]
    cases directive <;> exact ⟨rfl, rfl⟩

namespace Extractor

variable (extractor : Extractor) (path : String)

/-- What is read from a text item, if it is a text. -/
def readItem? (text : TextItem) : Option TextReading :=
  match (Finding.ofItem path text.item).1 with
  | .entry entry => some ⟨entry, text.domain⟩
  | _ => none

variable {path} in
/-- What is read from a text item has the text of its value, the place where the value starts and
the domain of the item. -/
theorem readItem?_eq_some {text : TextItem} {reading : TextReading}
    (read : readItem? path text = some reading) :
    ∃ value, text.item.value = some value ∧ Finding.text? value = some reading.entry.id ∧
      reading.entry.place = ⟨path, value.line⟩ ∧ reading.domain = text.domain := by
  unfold readItem? at read
  split at read
  case h_2 => cases read
  rename_i entry found
  cases read
  cases known : text.item.value.bind Finding.text? with
  | none =>
    simp only [Finding.ofItem, known] at found
    split at found <;> cases found
  | some id =>
    obtain ⟨value, present, isText⟩ := Option.bind_eq_some_iff.mp known
    simp only [Finding.ofItem, known, Finding.entry.injEq] at found
    obtain ⟨sameId, samePlace⟩ := Finding.foldl_withDirective
      (readDirectives (Finding.docOf text.item)
        s!"file {path} near line {Finding.lineOf text.item}").1
      { id, place := ⟨path, Finding.lineOf text.item⟩ }
    rw [found] at sameId samePlace
    refine ⟨value, present, isText.trans (congrArg some sameId.symm), ?_, rfl⟩
    rw [samePlace, Finding.lineOf, present]
    rfl

/-- The texts that an option array is read for; other nodes have none. -/
def readings (node : Node) : List TextReading :=
  match node.arrayItems? with
  | some items =>
    (textItems extractor.convention extractor.isField items).filterMap (readItem? path)
  | none => []

/-- The messages that trees declare, in two passes: first the default domain of every class is
known, then each array is read under the default domain of the innermost class around it. -/
def declaredMessages (nodes : List Node) : List Message :=
  (placed nodes).flatMap fun standing =>
    (extractor.readings path standing.node).map (·.under (defaultDomainOf standing.scope))

/-- The entries of a class or a file that wait for its default domain. -/
def waitingEntries (scope : List Node) : List Entry :=
  (ownNodes scope).flatMap fun node => (extractor.readings path node).filterMap TextReading.waiting?

/-- The messages that are stored when a class or a file is left. -/
def leftMessages (scope : List Node) : List Message :=
  (extractor.waitingEntries path scope).map (·.inDomain (defaultDomainOf scope))

/-- The messages that are stored on the way through trees, in their order: those with a fixed domain
at their array, the others at the end of their class. -/
def storedMessages : List Node → List Message
  | [] => []
  | node :: rest =>
    (extractor.readings path node).filterMap TextReading.fixed? ++ storedMessages node.children
      ++ (if node.isClassBody then extractor.leftMessages path node.children else [])
      ++ storedMessages rest
termination_by nodes => Node.totalSize nodes
decreasing_by
  · exact Node.totalSize_children_lt_cons node rest
  · exact Node.totalSize_lt_cons node rest

/-- The messages that one pass over a file adds, in their order. -/
def addedMessages (nodes : List Node) : List Message :=
  extractor.storedMessages path nodes ++ extractor.leftMessages path nodes

@[simp] theorem storedMessages_nil : extractor.storedMessages path [] = [] := by rw [storedMessages]

theorem storedMessages_cons (node : Node) (rest : List Node) :
    extractor.storedMessages path (node :: rest)
      = (extractor.readings path node).filterMap TextReading.fixed?
        ++ extractor.storedMessages path node.children
        ++ (if node.isClassBody then extractor.leftMessages path node.children else [])
        ++ extractor.storedMessages path rest := by
  rw [storedMessages]

@[simp] theorem waitingEntries_nil : extractor.waitingEntries path [] = [] := by
  simp only [waitingEntries, ownNodes_nil, List.flatMap_nil]

theorem waitingEntries_cons (node : Node) (rest : List Node) :
    extractor.waitingEntries path (node :: rest)
      = (extractor.readings path node).filterMap TextReading.waiting?
        ++ (if node.isClassBody then [] else extractor.waitingEntries path node.children)
        ++ extractor.waitingEntries path rest := by
  rw [waitingEntries, ownNodes_cons]
  split
  · simp only [List.cons_append, List.nil_append, List.flatMap_cons, List.append_nil, waitingEntries]
  · simp only [List.cons_append, List.flatMap_cons, List.flatMap_append, List.append_assoc,
      waitingEntries]

theorem readings_of_isClassBody {node : Node} (inside : node.isClassBody) :
    extractor.readings path node = [] := by
  cases node <;> simp_all [Node.isClassBody, readings, Node.arrayItems?]

/-- What trees in a class declare is stored on the way through them or waits for the end of the
class. -/
theorem placedFrom_flatMap_perm (scope : List Node) (spotOf : Nat → Spot) (index : Nat)
    (nodes : List Node) :
    ((placedFrom scope spotOf index nodes).flatMap fun standing =>
        (extractor.readings path standing.node).map (·.under (defaultDomainOf standing.scope))).Perm
      (extractor.storedMessages path nodes
        ++ (extractor.waitingEntries path nodes).map (·.inDomain (defaultDomainOf scope))) := by
  induction nodes using Node.forest_induction generalizing scope spotOf index with
  | nil => simp only [placedFrom_nil, List.flatMap_nil, storedMessages_nil, waitingEntries_nil,
      List.map_nil, List.append_nil, List.Perm.refl]
  | cons node rest inside behind =>
    rw [placedFrom_cons, List.cons_append, List.flatMap_cons, List.flatMap_append,
      storedMessages_cons, waitingEntries_cons]
    have later := behind scope spotOf (index + 1)
    rw [List.perm_iff_count] at later ⊢
    intro message
    have atRest := later message
    by_cases isClass : node.isClassBody
    · have within := (inside node.children (spotOf index).child 0).count_eq message
      simp only [isClass, if_true, extractor.readings_of_isClassBody path isClass, List.map_nil,
        List.filterMap_nil, List.nil_append, List.count_append, leftMessages] at within atRest ⊢
      omega
    · have within := (inside scope (spotOf index).child 0).count_eq message
      have atNode := (TextReading.map_under_perm (defaultDomainOf scope)
        (extractor.readings path node)).count_eq message
      simp only [isClass, if_false, Bool.false_eq_true, List.count_append, List.count_nil,
        List.map_append] at within atRest atNode ⊢
      omega

/-- One pass stores what two passes declare. -/
theorem addedMessages_perm_declaredMessages (nodes : List Node) :
    (extractor.addedMessages path nodes).Perm (extractor.declaredMessages path nodes) :=
  (extractor.placedFrom_flatMap_perm path nodes _ 0 nodes).symm

end Extractor

end FormHarvest
