import FormHarvest.Proofs.OnePass
import FormHarvest.Proofs.TextSpots

namespace FormHarvest

namespace Extraction

variable {extractor : Extractor} (before : Extraction)

theorem readText_eq_ok (goesOn : extractor.effectivePolicy = .goOn) {text : TextItem}
    (noKey : ∀ key, text.item.key = some key → key.isSourceUnit = false)
    (noValue : ∀ value, text.item.value = some value → value.isSourceUnit = false) :
    ∃ after, readText extractor before text = .ok after ∧ after.visitsLeft = before.visitsLeft := by
  have noUnit : ¬(text.item.key.any Node.isSourceUnit || text.item.value.any Node.isSourceUnit) := by
    cases key : text.item.key <;> cases value : text.item.value <;>
      simp_all
  simp only [readText, noUnit]
  cases (Finding.ofItem before.result.path text.item).1 with
  | nothing => exact ⟨_, rfl, rfl⟩
  | entry entry => cases text.domain <;> exact ⟨_, rfl, rfl⟩
  | diagnostic diagnostic => rw [goesOn]; exact ⟨_, rfl, rfl⟩

theorem visit_eq_ok (goesOn : extractor.effectivePolicy = .goOn) {node : Node}
    (noUnit : ∀ inner ∈ walk [node], inner.isSourceUnit = false) :
    ∃ after, visit extractor before node = .ok after ∧ after.visitsLeft = before.visitsLeft := by
  cases node with
  | sourceUnit path nodes => cases noUnit _ (mem_walk_of_mem List.mem_cons_self)
  | classBody name body mark => exact ⟨_, rfl, rfl⟩
  | array items mark =>
    refine foldlM_eq_ok_of_steps (fun text member state same => ?_) rfl
    obtain ⟨keys, values, -⟩ := mem_walk_of_mem_textItems mark member
    obtain ⟨after, read, left⟩ := state.readText_eq_ok goesOn (fun key found => noUnit _ (keys key found))
      fun value found => noUnit _ (values value found)
    exact ⟨after, read, left.trans same⟩
  | methodCall receiver name args mark =>
    simp only [visit]
    split <;> exact ⟨_, rfl, rfl⟩
  | _ => exact ⟨_, rfl, rfl⟩

/-- An extraction that goes on and is not told to stop takes every step that is not too deep. -/
theorem step_eq_ok {before : Extraction} (goesOn : extractor.effectivePolicy = .goOn) (always : before.visitsLeft = none)
    {station : Waypoint}
    (possible : ∀ depth node, station = .visit depth node →
      depth < extractor.maxDepth ∧ ∀ inner ∈ walk [node], inner.isSourceUnit = false) :
    ∃ after, step extractor before station = .ok after ∧ after.visitsLeft = none := by
  cases station with
  | leave =>
    simp only [step]
    split
    · exact ⟨_, rfl, always⟩
    · exact ⟨_, rfl, always⟩
  | visit depth node =>
    obtain ⟨shallow, noUnit⟩ := possible depth node rfl
    obtain ⟨after, visited, left⟩ := before.visit_eq_ok goesOn noUnit
    refine ⟨after, ?_, left.trans always⟩
    simp only [step, Nat.not_le.mpr shallow, if_false, takeVisit?, always, visited]

end Extraction

namespace Extractor

/-- An extraction that goes on comes to its end and adds what two passes over the file declare:
each text under the domain that its array fixes, or else under the default domain of the innermost
class around the array, no matter where in that class the default domain is set. -/
theorem run_adds_declaredMessages (extractor : Extractor) (path : String) (nodes : List Node)
    (catalogue : Catalogue) (goesOn : extractor.effectivePolicy = .goOn)
    (shallow : Node.height nodes ≤ extractor.maxDepth)
    (noUnit : ∀ node ∈ walk nodes, node.isSourceUnit = false) :
    ∃ extraction messages, extractor.run path nodes catalogue = (none, extraction) ∧
      extraction.result.complete = true ∧
      extraction.catalogue = catalogue.addAll messages ∧
      extraction.result.messages = messages.length ∧
      messages.Perm (extractor.declaredMessages path nodes) := by
  let start : Extraction := { catalogue, result := { path } }
  have steps : ∀ station ∈ routeThrough nodes, ∀ state : Extraction, state.visitsLeft = none →
      ∃ next, state.step extractor station = .ok next ∧ next.visitsLeft = none := by
    intro station member state always
    refine Extraction.step_eq_ok goesOn always fun depth node visited => ?_
    subst visited
    obtain ⟨met, bound⟩ := visit_mem_route member
    exact ⟨by omega, fun inner inside => noUnit inner (mem_walk_trans met inside)⟩
  have always : start.visitsLeft = none := rfl
  obtain ⟨last, run, -⟩ := foldlM_eq_ok_of_steps steps always
  obtain ⟨stored, counted, complete⟩ := Extraction.finish_route run
  refine ⟨last.finish, extractor.addedMessages path nodes, ?_, complete, stored, counted,
    extractor.addedMessages_perm_declaredMessages path nodes⟩
  simp only [start] at run
  simp only [Extractor.run, run]

/-- A class with a field, and with its default domain set behind the field. -/
def lateDefault : List Node :=
  let options (key value : String) (line : Int) : Node :=
    .array [⟨some (.string key false ⟨line, none⟩), some (.string value false ⟨line, none⟩), false,
      false, ⟨line, none⟩⟩] ⟨line, none⟩
  [.classBody "PersonType" [
    .methodCall (.variable "$builder" ⟨3, none⟩) "add" [options "label" "Name" 3] ⟨3, none⟩,
    .methodCall (.variable "$resolver" ⟨6, none⟩) "setDefaults"
      [options "translation_domain" "person" 6] ⟨6, none⟩] ⟨2, none⟩]

theorem run_adds_lateDefault :
    ∃ extraction messages,
      ({ policy := some .goOn } : Extractor).run "PersonType.php" lateDefault .empty = (none, extraction) ∧
      extraction.result.complete = true ∧
      extraction.catalogue = Catalogue.empty.addAll messages ∧
      extraction.result.messages = messages.length ∧
      messages.Perm
        [{ id := "Name", domain := some "person", places := [⟨"PersonType.php", 3⟩] }] := by
  have declared : ({ policy := some .goOn } : Extractor).declaredMessages "PersonType.php" lateDefault
      = [{ id := "Name", domain := some "person", places := [⟨"PersonType.php", 3⟩] }] := by
    decide +kernel
  rw [← declared]
  exact run_adds_declaredMessages _ _ _ _ rfl (by decide +kernel) (by decide +kernel)

end Extractor

end FormHarvest
