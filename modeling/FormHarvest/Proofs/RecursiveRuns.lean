import FormHarvest.Proofs.ReadingOrder
import FormHarvest.Proofs.StoppedRuns
import Mathlib.Data.Nat.Find

namespace FormHarvest

/-- An extraction that goes down trees by recursion, and the nodes before which it asked whether to stop. -/
structure Tour where
  extraction : Extraction
  asked : List Node := []

namespace Tour

variable (extractor : Extractor) (answer : Nat → Bool)

/-- Comes to a node: asks whether to stop and does what the node means. The answers are numbered in the
order of the questions; whoever gives them may look at anything. -/
def enter (tour : Tour) (depth : Nat) (node : Node) : Except (Interruption × Tour) Tour :=
  if extractor.maxDepth ≤ depth then .error (.tooDeep node.isMethodCall, tour)
  else
    let asked := tour.asked ++ [node]
    if answer tour.asked.length then .error (.stopped, { tour with asked })
    else
      match tour.extraction.visit extractor node with
      | .ok extraction => .ok { extraction, asked }
      | .error (interruption, extraction) => .error (interruption, { extraction, asked })

/-- Comes to the end of a class: its texts have their domain. -/
def leaveClass (tour : Tour) : Tour :=
  match tour.extraction.scopes.leave? with
  | some (scope, scopes) => { tour with extraction := { tour.extraction with scopes }.store scope.messages }
  | none => tour

/-- Comes to the end of a node, which means something only for a class. -/
def leave (tour : Tour) (node : Node) : Tour := if node.isClassBody then tour.leaveClass else tour

/-- Goes down trees that stand beside each other: into the first one, into its parts, and then on to the
others. -/
def descend (depth : Nat) : List Node → Tour → Except (Interruption × Tour) Tour
  | [], tour => .ok tour
  | node :: rest, tour => do
    let entered ← tour.enter extractor answer depth node
    let inside ← descend (depth + 1) node.children entered
    descend depth rest (inside.leave node)
termination_by nodes => Node.totalSize nodes
decreasing_by
  · exact Node.totalSize_children_lt_cons node rest
  · exact Node.totalSize_lt_cons node rest

end Tour

/-- Extracts the texts of a file by recursion. -/
def Extractor.tour (extractor : Extractor) (answer : Nat → Bool) (path : String) (nodes : List Node)
    (catalogue : Catalogue) : Option Interruption × Tour :=
  match Tour.descend extractor answer 0 nodes { extraction := { catalogue, result := { path } } } with
  | .ok tour => (none, { tour with extraction := tour.extraction.finish })
  | .error (.stopped, tour) => (none, { tour with extraction := tour.extraction.stop })
  | .error (interruption, tour) => (some interruption, tour)

/-- Changes where something stands, whether it goes on or is interrupted. -/
def mapStand {σ τ : Type} (f : σ → τ) : Except (Interruption × σ) σ → Except (Interruption × τ) τ
  | .ok stand => .ok (f stand)
  | .error (interruption, stand) => .error (interruption, f stand)

theorem bind_mapStand {σ τ : Type} {f : σ → τ} {first : Except (Interruption × σ) σ}
    {next : σ → Except (Interruption × σ) σ} {other : τ → Except (Interruption × τ) τ}
    (same : ∀ stand, first = .ok stand → other (f stand) = mapStand f (next stand)) :
    (mapStand f first >>= other) = mapStand f (first >>= next) := by
  cases first with
  | ok stand => exact same stand rfl
  | error interrupted => rfl

namespace Extraction

variable {extractor : Extractor}

/-- The extraction with another number of visits that are left. -/
def withVisits (visits : Option Nat) (extraction : Extraction) : Extraction := { extraction with visitsLeft := visits }

theorem readText_withVisits (visits : Option Nat) (extraction : Extraction) (text : TextItem) :
    readText extractor (extraction.withVisits visits) text
      = mapStand (withVisits visits) (readText extractor extraction text) := by
  have samePath : (extraction.withVisits visits).result.path = extraction.result.path := rfl
  simp only [readText, samePath]
  split
  · rfl
  · cases (Finding.ofItem extraction.result.path text.item).1 with
    | nothing => rfl
    | entry entry => cases text.domain <;> rfl
    | diagnostic diagnostic => cases extractor.effectivePolicy <;> rfl

theorem readTexts_withVisits (visits : Option Nat) (extraction : Extraction) (texts : List TextItem) :
    texts.foldlM (readText extractor) (extraction.withVisits visits)
      = mapStand (withVisits visits) (texts.foldlM (readText extractor) extraction) := by
  induction texts generalizing extraction with
  | nil => rfl
  | cons text rest ih =>
    rw [List.foldlM_cons, List.foldlM_cons, readText_withVisits]
    exact bind_mapStand fun after _ => ih after

/-- What a node means does not depend on how many visits are left. -/
theorem visit_withVisits (visits : Option Nat) (extraction : Extraction) (node : Node) :
    visit extractor (extraction.withVisits visits) node
      = mapStand (withVisits visits) (visit extractor extraction node) := by
  cases node with
  | array items mark => exact readTexts_withVisits visits extraction _
  | methodCall receiver name args mark =>
    simp only [visit]
    split <;> rfl
  | _ => rfl

end Extraction

/-- A number of questions that are all answered with no, if there is a first one that is answered with yes. -/
def FirstYes (answer : Nat → Bool) : Option Nat → Prop
  | none => ∀ number, answer number = false
  | some visits => answer visits = true ∧ ∀ number < visits, answer number = false

theorem exists_firstYes (answer : Nat → Bool) : ∃ visits, FirstYes answer visits := by
  by_cases yes : ∃ number, answer number = true
  · exact ⟨some (Nat.find yes), Nat.find_spec yes, fun number before => by simpa using Nat.find_min yes before⟩
  · exact ⟨none, fun number => by simpa using not_exists.mp yes number⟩

namespace Tour

variable {extractor : Extractor} {answer : Nat → Bool} {visits : Option Nat} {tour after : Tour} {depth : Nat}
  {nodes : List Node}

/-- The extraction of a tour with the visits that are left of a number that was given. -/
def limited (visits : Option Nat) (tour : Tour) : Extraction :=
  tour.extraction.withVisits (visits.map (· - tour.asked.length))

/-- A tour that has not asked more often than visits were given. -/
def IsWithin (visits : Option Nat) (tour : Tour) : Prop := ∀ limit ∈ visits, tour.asked.length ≤ limit

section Limits

variable (first : FirstYes answer visits) (within : tour.IsWithin visits)

include first within

theorem takeVisit?_of_yes (yes : answer tour.asked.length = true) (node : Node) :
    (tour.limited visits).takeVisit? = none ∧
      ({ tour with asked := tour.asked ++ [node] } : Tour).limited visits = tour.limited visits := by
  cases visits with
  | none => cases yes.symm.trans (first _)
  | some limit =>
    have most : tour.asked.length = limit :=
      Nat.le_antisymm (within limit rfl) (Nat.le_of_not_lt fun before => by cases yes.symm.trans (first.2 _ before))
    simp only [Extraction.takeVisit?, limited, Extraction.withVisits, Option.map_some, List.length_append, most]
    simp

theorem takeVisit?_of_no (no : answer tour.asked.length = false) (node : Node) :
    (tour.limited visits).takeVisit?
        = some (tour.extraction.withVisits (visits.map (· - (tour.asked ++ [node]).length))) ∧
      ∀ limit ∈ visits, (tour.asked ++ [node]).length ≤ limit := by
  cases visits with
  | none => exact ⟨rfl, fun limit given => nomatch given⟩
  | some limit =>
    have most := within limit rfl
    have more : tour.asked.length ≠ limit := fun same => by cases (same ▸ first.1).symm.trans no
    obtain ⟨left, leaves⟩ : ∃ left, limit - tour.asked.length = left + 1 :=
      ⟨limit - tour.asked.length - 1, by omega⟩
    have fewer : limit - (tour.asked ++ [node]).length = left := by
      rw [List.length_append, List.length_singleton]
      omega
    refine ⟨?_, fun other given => ?_⟩
    · simp only [Extraction.takeVisit?, limited, Extraction.withVisits, Option.map_some, leaves, fewer]
    · cases given
      rw [List.length_append, List.length_singleton]
      omega

/-- A step of the run comes to a node as the tour does. -/
theorem step_limited (extractor : Extractor) (depth : Nat) (node : Node) :
    Extraction.step extractor (tour.limited visits) (.visit depth node)
        = mapStand (limited visits) (tour.enter extractor answer depth node) ∧
      ∀ entered, tour.enter extractor answer depth node = .ok entered → entered.IsWithin visits := by
  unfold enter Extraction.step
  dsimp only
  by_cases deep : extractor.maxDepth ≤ depth
  · rw [if_pos deep, if_pos deep]
    exact ⟨rfl, fun entered ended => nomatch ended⟩
  rw [if_neg deep, if_neg deep]
  cases told : answer tour.asked.length with
  | true =>
    obtain ⟨none_, same⟩ := takeVisit?_of_yes first within told node
    rw [none_]
    exact ⟨congrArg (fun stand => Except.error (Interruption.stopped, stand)) same.symm,
      fun entered ended => nomatch ended⟩
  | false =>
    obtain ⟨more, fewer⟩ := takeVisit?_of_no first within told node
    rw [more]
    dsimp only
    rw [Extraction.visit_withVisits]
    cases tour.extraction.visit extractor node with
    | ok extraction =>
      refine ⟨rfl, fun entered came => ?_⟩
      cases came
      exact fewer
    | error interrupted => exact ⟨rfl, fun entered ended => nomatch ended⟩

end Limits

theorem step_leave_limited (tour : Tour) :
    Extraction.step extractor (tour.limited visits) .leave = .ok (tour.leaveClass.limited visits) := by
  have sameScopes : (tour.limited visits).scopes = tour.extraction.scopes := rfl
  simp only [Extraction.step, leaveClass, sameScopes]
  cases tour.extraction.scopes.leave? with
  | none => rfl
  | some left => rfl

@[simp] theorem asked_leave (tour : Tour) (node : Node) : (tour.leave node).asked = tour.asked := by
  unfold leave leaveClass
  split
  · split <;> rfl
  · rfl

/-- The way of the run and the recursion come to the same. The induction is on the trees; what is carried along is
that no more questions were asked than visits were given. -/
theorem route_limited (extractor : Extractor) (first : FirstYes answer visits) (within : tour.IsWithin visits)
    (depth : Nat) (nodes : List Node) :
    (route (nodes.map (.visit depth))).foldlM (Extraction.step extractor) (tour.limited visits)
        = mapStand (limited visits) (descend extractor answer depth nodes tour) ∧
      ∀ ended, descend extractor answer depth nodes tour = .ok ended → ended.IsWithin visits := by
  induction nodes using Node.forest_induction generalizing depth tour with
  | nil =>
    rw [List.map_nil, route_nil, descend]
    refine ⟨rfl, fun ended came => ?_⟩
    cases came
    exact within
  | cons node rest inside behind =>
    obtain ⟨step, entering⟩ := step_limited first within extractor depth node
    have close (inner : Tour) : (if node.isClassBody then [Waypoint.leave] else []).foldlM
        (Extraction.step extractor) (inner.limited visits)
          = .ok ((inner.leave node).limited visits) := by
      unfold leave
      split
      · rw [List.foldlM_cons, step_leave_limited]
        rfl
      · rfl
    have closed {inner : Tour} (within : inner.IsWithin visits) : (inner.leave node).IsWithin visits := by
      rwa [IsWithin, asked_leave]
    constructor
    · rw [route_visits_cons, List.append_assoc, List.append_assoc, List.singleton_append, List.foldlM_cons, step,
        descend]
      refine bind_mapStand fun entered came => ?_
      obtain ⟨parts, within⟩ := inside (entering entered came) (depth + 1)
      rw [List.foldlM_append, parts]
      refine bind_mapStand fun inner came => ?_
      rw [List.foldlM_append, close]
      exact (behind (closed (within inner came)) depth).1
    · intro ended came
      rw [descend] at came
      obtain ⟨entered, entry, came⟩ := bind_eq_ok_iff.mp came
      obtain ⟨inner, parts, others⟩ := bind_eq_ok_iff.mp came
      have within := (inside (entering entered entry) (depth + 1)).2 inner parts
      exact (behind (closed within) depth).2 ended others

section Order

theorem asked_of_enter_eq_ok {node : Node} (came : tour.enter extractor answer depth node = .ok after) :
    after.asked = tour.asked ++ [node] := by
  unfold enter at came
  split at came
  · cases came
  · dsimp only at came
    split at came
    · cases came
    · split at came <;> cases came
      rfl

theorem asked_of_enter_eq_error {node : Node} {interruption : Interruption}
    (ended : tour.enter extractor answer depth node = .error (interruption, after)) :
    ∃ front, front <+: [node] ∧ after.asked = tour.asked ++ front := by
  unfold enter at ended
  split at ended
  · cases ended
    exact ⟨[], List.nil_prefix, (List.append_nil _).symm⟩
  · dsimp only at ended
    split at ended
    · cases ended
      exact ⟨[node], List.prefix_rfl, rfl⟩
    · split at ended <;> cases ended
      exact ⟨[node], List.prefix_rfl, rfl⟩

/-- A tour that comes to its end has asked once before every node, in the order of reading. -/
theorem asked_of_descend_eq_ok (came : descend extractor answer depth nodes tour = .ok after) :
    after.asked = tour.asked ++ walk nodes := by
  induction nodes using Node.forest_induction generalizing depth tour after with
  | nil =>
    rw [descend] at came
    cases came
    rw [walk_nil, List.append_nil]
  | cons node rest inside behind =>
    rw [descend] at came
    obtain ⟨entered, entry, came⟩ := bind_eq_ok_iff.mp came
    obtain ⟨inner, parts, others⟩ := bind_eq_ok_iff.mp came
    rw [behind others, asked_leave, inside parts, asked_of_enter_eq_ok entry, walk_cons]
    simp only [List.append_assoc, List.cons_append, List.nil_append]

/-- A tour that is interrupted has asked before the first nodes in the order of reading. -/
theorem asked_of_descend_eq_error {interruption : Interruption}
    (ended : descend extractor answer depth nodes tour = .error (interruption, after)) :
    ∃ front, front <+: walk nodes ∧ after.asked = tour.asked ++ front := by
  induction nodes using Node.forest_induction generalizing depth tour after with
  | nil =>
    rw [descend] at ended
    cases ended
  | cons node rest inside behind =>
    rw [descend] at ended
    rw [walk_cons, ← List.singleton_append]
    cases entry : tour.enter extractor answer depth node with
    | error interrupted =>
      rw [entry] at ended
      cases ended
      obtain ⟨front, first, asked⟩ := asked_of_enter_eq_error entry
      exact ⟨front, first.trans (List.prefix_append _ _), asked⟩
    | ok entered =>
      rw [entry] at ended
      have atNode := asked_of_enter_eq_ok entry
      cases parts : descend extractor answer (depth + 1) node.children entered with
      | error interrupted =>
        have ended : descend extractor answer (depth + 1) node.children entered >>= _ = _ := ended
        rw [parts] at ended
        cases ended
        obtain ⟨front, first, asked⟩ := inside parts
        refine ⟨[node] ++ front, ?_, by rw [asked, atNode, List.append_assoc]⟩
        exact (List.prefix_append_right_inj _).mpr (first.trans (List.prefix_append _ _))
      | ok inner =>
        have ended : descend extractor answer (depth + 1) node.children entered >>= _ = _ := ended
        rw [parts] at ended
        obtain ⟨front, first, asked⟩ := behind ended
        refine ⟨[node] ++ (walk node.children ++ front), ?_, ?_⟩
        · exact (List.prefix_append_right_inj _).mpr ((List.prefix_append_right_inj _).mpr first)
        · rw [asked, asked_leave, asked_of_descend_eq_ok parts, atNode]
          simp only [List.append_assoc]

end Order

end Tour

namespace Extractor

/-- What holds of a run through trees whose nodes are listed tree by tree in `walks`: the lists are those of the
recursion, every place of a node comes once in them, and the run asks whether to stop once before each node, in
that order, up to where it ends. -/
structure AsksInOrder (extractor : Extractor) (answer : Nat → Bool) (path : String) (nodes : List Node)
    (catalogue : Catalogue) (walks : List (List Node)) (ended : Option Interruption × Tour) : Prop where
  walked : (nodes.mapM fun node => walkWhole? [node]) = some walks
  recursive : walks = nodes.map Node.preorder
  occurrences : ∃ places : List (List Nat), places.Pairwise (· < ·) ∧
    (∀ place, place ∈ places ↔ (Node.at? nodes place).isSome) ∧
    places.map (Node.at? nodes) = walks.flatten.map some
  isRun : ∀ visits, FirstYes answer visits →
    extractor.run path nodes catalogue visits = (ended.1, ended.2.limited visits)
  isPrefix : ended.2.asked <+: walks.flatten
  unstopped : ended.1 = none → ended.2.extraction.result.complete = true → ended.2.asked = walks.flatten
  ends : extractor.effectivePolicy = .goOn → (∀ number < walks.flatten.length, answer number = false) →
    ended.1 = none ∧ ended.2.extraction.result.complete = true

variable (extractor : Extractor) {answer : Nat → Bool} {visits : Option Nat} (path : String) {nodes : List Node}
  (catalogue : Catalogue)

/-- The run on the way is the recursion, with as many visits as there are questions before a yes. -/
theorem run_eq_tour (first : FirstYes answer visits) (nodes : List Node) :
    extractor.run path nodes catalogue visits
      = let ended := extractor.tour answer path nodes catalogue
        (ended.1, ended.2.limited visits) := by
  let start : Tour := { extraction := { catalogue, result := { path } } }
  have way := (Tour.route_limited extractor first
    (show start.IsWithin visits from fun limit _ => Nat.zero_le limit) 0 nodes).1
  have begin_ : start.limited visits = { catalogue, result := { path }, visitsLeft := visits } := by
    cases visits <;> rfl
  rw [begin_] at way
  simp only [run, routeThrough, way, tour]
  cases Tour.descend extractor answer 0 nodes start with
  | ok ended => rfl
  | error interrupted =>
    obtain ⟨interruption, ended⟩ := interrupted
    cases interruption <;> rfl

/-- A run that goes on and gets no yes before any node comes to its end. -/
theorem tour_complete (goesOn : extractor.effectivePolicy = .goOn) (possible : extractor.Visits nodes)
    (no : ∀ number < (walk nodes).length, answer number = false) :
    (extractor.tour answer path nodes catalogue).1 = none ∧
      (extractor.tour answer path nodes catalogue).2.extraction.result.complete = true := by
  obtain ⟨visits, first⟩ := exists_firstYes answer
  obtain ⟨extraction, run, complete⟩ : ∃ extraction,
      extractor.run path nodes catalogue visits = (none, extraction) ∧ extraction.result.complete = true := by
    cases visits with
    | none =>
      obtain ⟨extraction, run, complete, -⟩ := run_eq_addAll goesOn possible catalogue
      exact ⟨extraction, run, complete⟩
    | some limit =>
      have passable : Extraction.Passable extractor 0 nodes := ⟨Nat.zero_add _ ▸ possible.shallow, possible.noUnit⟩
      have enough : (walk nodes).length ≤ limit :=
        Nat.le_of_not_lt fun few => by cases first.1.symm.trans (no limit few)
      let start : Extraction := { catalogue, result := { path }, visitsLeft := some limit }
      have left : start.visitsLeft = some limit := rfl
      obtain ⟨last, ended, -⟩ := Extraction.route_eq_ok goesOn passable left enough
      simp only [start] at ended
      exact ⟨last.finish, by simp only [run, routeThrough, ended], (Extraction.finish_route ended).2.2⟩
  rw [extractor.run_eq_tour path catalogue first nodes] at run
  exact ⟨congrArg Prod.fst run, (congrArg (·.2.result.complete) run).trans complete⟩

/-- A run asks once before each node whether to stop, in the order in which the lists of the trees give the nodes. -/
theorem tour_asksInOrder (answer : Nat → Bool) (possible : extractor.Visits nodes) :
    ∃ walks, extractor.AsksInOrder answer path nodes catalogue walks
      (extractor.tour answer path nodes catalogue) := by
  have together : (nodes.map Node.preorder).flatten = walk nodes := by
    rw [walk_eq_flatMap_preorder, List.flatMap_def]
  refine ⟨nodes.map Node.preorder,
    { walked := mapM_walkWhole? possible.noUnit
      recursive := rfl
      occurrences := ?_
      isRun := fun visits first => extractor.run_eq_tour path catalogue first nodes
      isPrefix := ?_
      unstopped := ?_
      ends := ?_ }⟩
  · rw [together]
    exact ⟨Node.places nodes, Node.pairwise_placesFrom 0 nodes, fun place => Node.mem_places_iff,
      Node.map_at?_places nodes⟩
  · rw [together, tour]
    cases ended : Tour.descend extractor answer 0 nodes { extraction := { catalogue, result := { path } } } with
    | ok after =>
      have asked : after.asked = walk nodes := Tour.asked_of_descend_eq_ok ended
      exact ⟨[], by rw [List.append_nil, asked]⟩
    | error interrupted =>
      obtain ⟨interruption, after⟩ := interrupted
      obtain ⟨front, first, asked⟩ := Tour.asked_of_descend_eq_error ended
      obtain rfl : after.asked = front := asked
      cases interruption <;> exact first
  · rw [together, tour]
    intro quiet complete
    cases ended : Tour.descend extractor answer 0 nodes { extraction := { catalogue, result := { path } } } with
    | ok after => exact Tour.asked_of_descend_eq_ok ended
    | error interrupted =>
      obtain ⟨interruption, after⟩ := interrupted
      rw [ended] at quiet complete
      cases interruption with
      | stopped => cases complete
      | _ => cases quiet
  · rw [together]
    exact fun goesOn no => extractor.tour_complete path catalogue goesOn possible no

/-- Two classes of thirteen nodes each: the run asks before the class, then goes into its calls, from what they are
called on to their arguments and the items of these. -/
theorem twoForms_asked :
    goingOn.Visits twoForms ∧ ∃ walks,
      (twoForms.mapM fun node => walkWhole? [node]) = some walks ∧
      (goingOn.tour (fun _ => false) "Forms.php" twoForms .empty).2.asked = walks.flatten ∧
      walks.map (·.map Node.kindName) = List.replicate 2 ["ClassBody", "MethodCall", "Variable", "ArrayLiteral",
        "ArrayItem", "StringLiteral", "StringLiteral", "MethodCall", "Variable", "ArrayLiteral", "ArrayItem",
        "StringLiteral", "StringLiteral"] := by
  have possible : goingOn.Visits twoForms := ⟨by decide +kernel, by decide +kernel⟩
  obtain ⟨walks, asks⟩ := goingOn.tour_asksInOrder "Forms.php" .empty (fun _ => false) possible
  obtain ⟨quiet, complete⟩ := asks.ends rfl fun _ _ => rfl
  refine ⟨possible, walks, asks.walked, asks.unstopped quiet complete, ?_⟩
  rw [asks.recursive]
  decide +kernel

end Extractor

end FormHarvest
