import FormHarvest.Extraction.Extractor
import FormHarvest.Php.Parser

namespace FormHarvest

namespace Extractor

/-- The trees of a source and what an extraction of them into an empty catalogue leaves, if the
source can be parsed and the extraction comes to its end. -/
def ofSource? (extractor : Extractor) (path source : String) : Option (SourceUnit × Extraction) :=
  (parseSource path source).toOption.bind fun parsed =>
    let run := extractor.run path parsed.1.nodes .empty
    if run.1.isNone && run.2.result.complete then some (parsed.1, run.2) else none

theorem exists_of_ofSource? {extractor : Extractor} {path source : String}
    {test : SourceUnit × Extraction → Bool}
    (passed : (extractor.ofSource? path source).any test = true) :
    ∃ unit log extraction, parseSource path source = .ok (unit, log) ∧
      extractor.run path unit.nodes .empty = (none, extraction) ∧
      extraction.result.complete = true ∧ test (unit, extraction) = true := by
  obtain ⟨found, result, passed⟩ := (Option.any_eq_true _ _).mp passed
  obtain ⟨⟨unit, log⟩, parsed, ended⟩ := Option.bind_eq_some_iff.mp result
  dsimp only at ended
  split at ended
  · rename_i complete
    cases ended
    simp only [Bool.and_eq_true, Option.isNone_iff_eq_none] at complete
    refine ⟨unit, log, _, ?_, Prod.ext complete.1 rfl, complete.2, passed⟩
    cases source : parseSource path source with
    | error fault => rw [source] at parsed; cases parsed
    | ok value => rw [source] at parsed; cases parsed; rfl
  · cases ended

end Extractor

end FormHarvest
