import FormHarvest.Proofs.OnePass

namespace FormHarvest

namespace Extractor

variable (extractor : Extractor) (path : String)

/-- What is noted when a text item cannot be read. -/
def unreadable? (text : TextItem) : Option Diagnostic :=
  match (Finding.ofItem path text.item).1 with
  | .diagnostic diagnostic => some diagnostic
  | _ => none

/-- What is noted about the texts that a node is read for. -/
def diagnosticsAt (node : Node) : List Diagnostic :=
  match node.arrayItems? with
  | some items =>
    (textItems extractor.convention extractor.isField items).filterMap (unreadable? path)
  | none => []

/-- What is noted at a station of the way. -/
def diagnosticsOn : Waypoint → List Diagnostic
  | .visit _ node => extractor.diagnosticsAt path node
  | .leave => []

theorem flatMap_diagnosticsOn_route (depth : Nat) (nodes : List Node) :
    (route (nodes.map (.visit depth))).flatMap (extractor.diagnosticsOn path)
      = (walk nodes).flatMap (extractor.diagnosticsAt path) := by
  induction nodes using Node.forest_induction generalizing depth with
  | nil => simp only [List.map_nil, route_nil, walk_nil, List.flatMap_nil]
  | cons node rest inside behind =>
    have close : (if node.isClassBody then [Waypoint.leave] else []).flatMap
        (extractor.diagnosticsOn path) = [] := by
      split <;> rfl
    simp only [route_visits_cons, walk_cons, List.flatMap_append, inside, behind, close,
      List.append_nil, List.nil_append,
      List.flatMap_cons, List.flatMap_nil, List.append_assoc, diagnosticsOn]

end Extractor

namespace Extraction

variable {extractor : Extractor} {before after : Extraction}

theorem readText_notes {text : TextItem} (run : readText extractor before text = .ok after) :
    after.result.diagnostics
      = before.result.diagnostics ++ (Extractor.unreadable? before.result.path text).toList := by
  unfold readText at run
  split at run
  · cases run
  obtain ⟨item, domain⟩ := text
  rcases reading : Finding.ofItem before.result.path item with ⟨finding, records⟩
  simp only [reading] at run
  simp only [Extractor.unreadable?, reading]
  cases finding with
  | nothing =>
    cases run
    exact (List.append_nil _).symm
  | entry entry => cases domain <;> cases run <;> exact (List.append_nil _).symm
  | diagnostic diagnostic =>
    simp only at run
    split at run
    · cases run
    · cases run
      rfl

theorem readTexts_note {texts : List TextItem}
    (run : texts.foldlM (readText extractor) before = .ok after) :
    after.result.diagnostics = before.result.diagnostics
      ++ texts.filterMap (Extractor.unreadable? before.result.path) := by
  induction texts generalizing before with
  | nil =>
    cases run
    exact (List.append_nil _).symm
  | cons text rest ih =>
    obtain ⟨middle, first, others⟩ := foldlM_cons_eq_ok_iff.mp run
    rw [ih others, readText_notes first, (readText_brings first).path, List.append_assoc,
      List.filterMap_cons]
    cases Extractor.unreadable? before.result.path text <;> rfl

theorem visit_notes {node : Node} (run : visit extractor before node = .ok after) :
    after.result.diagnostics
      = before.result.diagnostics ++ extractor.diagnosticsAt before.result.path node := by
  cases node with
  | array items mark => exact readTexts_note run
  | sourceUnit path nodes => cases run
  | methodCall receiver name args mark =>
    simp only [visit] at run
    split at run <;> cases run <;> exact (List.append_nil _).symm
  | _ =>
    cases run
    exact (List.append_nil _).symm

theorem takeVisit?_result (more : before.takeVisit? = some after) : after.result = before.result := by
  unfold takeVisit? at more
  split at more <;> cases more <;> rfl

theorem step_notes {station : Waypoint} (run : step extractor before station = .ok after) :
    after.result.diagnostics
      = before.result.diagnostics ++ extractor.diagnosticsOn before.result.path station := by
  cases station with
  | visit depth node =>
    simp only [step] at run
    split at run
    · cases run
    split at run
    · cases run
    rename_i middle more
    rw [visit_notes run, takeVisit?_result more]
    rfl
  | leave =>
    simp only [step] at run
    split at run <;> cases run <;> exact (List.append_nil _).symm

theorem path_of_step {station : Waypoint} (run : step extractor before station = .ok after) :
    after.result.path = before.result.path := by
  cases station with
  | visit depth node =>
    obtain ⟨middle, more, visited⟩ := step_visit_eq_ok run
    by_cases isClass : node.isClassBody
    · rw [← more.path]
      cases node <;> cases isClass
      cases visited
      rfl
    · exact (visit_brings isClass visited).path.trans more.path
  | leave =>
    simp only [step] at run
    split at run <;> cases run <;> rfl

theorem path_of_foldlM_step {stations : List Waypoint}
    (run : stations.foldlM (step extractor) before = .ok after) :
    after.result.path = before.result.path := by
  induction stations generalizing before with
  | nil =>
    cases run
    rfl
  | cons station rest ih =>
    obtain ⟨middle, first, others⟩ := foldlM_cons_eq_ok_iff.mp run
    exact (ih others).trans (path_of_step first)

/-- On a part of the way what is noted at its stations comes behind what was noted before. -/
theorem foldlM_step_notes {stations : List Waypoint}
    (run : stations.foldlM (step extractor) before = .ok after) :
    after.result.diagnostics = before.result.diagnostics
      ++ stations.flatMap (extractor.diagnosticsOn before.result.path) := by
  induction stations generalizing before with
  | nil =>
    cases run
    exact (List.append_nil _).symm
  | cons station rest ih =>
    obtain ⟨middle, first, others⟩ := foldlM_cons_eq_ok_iff.mp run
    rw [ih others, step_notes first, path_of_step first, List.append_assoc, List.flatMap_cons]

end Extraction

end FormHarvest
