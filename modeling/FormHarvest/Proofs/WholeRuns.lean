import FormHarvest.Proofs.SavedFiles

namespace FormHarvest

/-- What a run counts is in its report and its catalogue. -/
theorem Run.stats_congr {run other : Run} (report : run.report = other.report)
    (catalogue : run.catalogue = other.catalogue) : run.stats = other.stats := by
  rw [stats, stats, outputDomains, outputDomains, report, catalogue]

namespace RunRequest

variable {request : RunRequest} {system : FileSystem}

/-- What keeps a run from writing: it finds no files, it is stopped, or it is strict and a value in one of the files
cannot be read. -/
def IsCut (request : RunRequest) (system : FileSystem) : Prop :=
  request.settings.foundFiles system = [] ∨ (request.run system).1 = .stopped ∨
    (request.run system).2.stopRequested = true ∨
    request.settings.strict = true ∧ ∃ path ∈ request.settings.foundFiles system,
      (system.reading request path).diagnostics request.settings.extractor ≠ []

/-- A run that is cut has written nothing, however far it had got. -/
theorem IsCut.writesNothing (cut : request.IsCut system) : Run.WritesNothing system (request.run system) := by
  obtain ⟨ended, records, ends, run⟩ := exists_run_eq request system
  have whole {harvested : Run} (harvests : Run.Harvests request (request.start system) harvested)
      (notStopped : ended.1 ≠ .stopped) (running : ended.2.stopRequested = harvested.stopRequested) : False := by
    rw [IsCut, run] at cut
    rcases cut with nothing | stopped | stopped | ⟨strict, path, member, unreadable⟩
    · exact harvests.found nothing
    · exact notStopped stopped
    · exact Bool.false_ne_true ((running.trans harvests.running).symm.trans stopped)
    · exact unreadable (harvests.readable strict path member)
  rw [run]
  cases ends with
  | early harvest unwritten => exact unwritten
  | preview harvest harvests => exact (whole harvests (fun same => nomatch same) rfl).elim
  | saved harvest harvests real saves =>
    obtain ⟨files, -, saves, -⟩ := Run.saveAll_eq_ok saves
    have running := congrArg Run.stopRequested saves.rest
    exact (whole harvests (fun same => nomatch same) running).elim
  | unsaved harvest harvests real fails =>
    have fails := (Run.saveAll_eq_error fails).1
    obtain ⟨_, _, rest⟩ := fails.rest
    have running := congrArg Run.stopRequested rest
    exact (whole harvests fails.notStopped running).elim

/-- A dry run writes nothing and tells of no files. -/
theorem writesNothing_of_dry (dry : request.dryRun = true) :
    (request.run system).2.system = system ∧
      ((request.run system).1.paths? = none ∨ (request.run system).1.paths? = some []) := by
  obtain ⟨ended, records, ends, run⟩ := exists_run_eq request system
  rw [run]
  cases ends with
  | early harvest unwritten => exact ⟨unwritten.1, .inl unwritten.2⟩
  | preview harvest harvests => exact ⟨harvests.system, .inr rfl⟩
  | saved _ _ real => cases real.symm.trans dry
  | unsaved _ _ real => cases real.symm.trans dry

/-- The preview of a run that saves its messages has the same counts. -/
theorem preview_of_saved {count : Nat} {told : List Path} (saved : (request.run system).1 = .saved count told) :
    let preview := { request with dryRun := true }.run system
    preview.1 = .previewed count ∧ preview.2.stats = (request.run system).2.stats ∧
      preview.2.report = (request.run system).2.report ∧ preview.2.catalogue = (request.run system).2.catalogue := by
  obtain ⟨ended, records, ends, run⟩ := exists_run_eq request system
  rw [run] at saved ⊢
  cases ends with
  | early harvest unwritten => cases saved ▸ unwritten.2
  | preview => cases saved
  | unsaved harvest harvests real fails => cases saved ▸ (Run.saveAll_eq_error fails).1.isSuccess
  | saved harvest harvests real saves =>
    cases saved
    obtain ⟨files, -, saves, -⟩ := Run.saveAll_eq_ok saves
    have catalogue := congrArg Run.catalogue saves.rest
    have report := congrArg Run.report saves.rest
    rw [dry_of_harvest harvest]
    exact ⟨rfl, Run.stats_congr report.symm catalogue.symm, report.symm, catalogue.symm⟩

/-- Nothing is written, and no files are told of, if a run is dry or is cut, and a dry run tells how the real one
ends: it succeeds with the same counts where the real one saves its messages, and where it does not succeed the
real one ends in the same way. -/
theorem run_writes_whole_extractions (request : RunRequest) (system : FileSystem) :
    let real := request.run system
    let preview := { request with dryRun := true }.run system
    (request.dryRun = true ∨ request.IsCut system →
      real.2.system = system ∧ (real.1.paths? = none ∨ real.1.paths? = some [])) ∧
    (∀ count told, real.1 = .saved count told →
      preview.1 = .previewed count ∧ preview.2.stats = real.2.stats ∧ preview.2.report = real.2.report ∧
        preview.2.catalogue = real.2.catalogue) ∧
    (preview.1.isSuccess = false → real = preview) := by
  intro real preview
  refine ⟨fun cut => ?_, fun count told saved => preview_of_saved saved, fun fails => ?_⟩
  · rcases cut with dry | cut
    · exact writesNothing_of_dry dry
    · exact ⟨cut.writesNothing.1, .inl cut.writesNothing.2⟩
  · cases harvest : (request.start system).harvest request with
    | error ended => exact (dry_of_early harvest).symm
    | ok harvested =>
      have previewed : preview = _ := dry_of_harvest harvest
      rw [previewed] at fails
      cases fails

open FormsInEnglish in
/-- The preview of what is written in English has the same counts, and neither it nor a run that is stopped before
its first file writes anything. -/
theorem formsInEnglish_are_previewed :
    let preview := { formsInEnglish with dryRun := true }.run lostDraft
    let stopped := { formsInEnglish with stop := some (.behind 0) }.run lostDraft
    (formsInEnglish.run lostDraft).1 = .saved 1 [messages] ∧ (formsInEnglish.run lostDraft).2.system ≠ lostDraft ∧
      preview.1 = .previewed 1 ∧ preview.2.stats = (formsInEnglish.run lostDraft).2.stats ∧
      preview.2.system = lostDraft ∧ stopped.1 = .stopped ∧ stopped.2.system = lostDraft := by
  obtain ⟨saved, text, written⟩ := run_forms
  obtain ⟨-, previews, -⟩ := run_writes_whole_extractions formsInEnglish lostDraft
  obtain ⟨ofDry, -, -⟩ := run_writes_whole_extractions { formsInEnglish with dryRun := true } lostDraft
  obtain ⟨ofStopped, -, -⟩ :=
    run_writes_whole_extractions { formsInEnglish with stop := some (.behind 0) } lostDraft
  obtain ⟨previewed, stats, -, -⟩ := previews 1 [messages] saved
  have found : formsInEnglish.settings.foundFiles lostDraft ≠ [] := by
    rw [show formsInEnglish.settings.foundFiles lostDraft = _ from LostDraft.foundFiles_forms]
    decide
  have stopped := stopped_of_behind_nothing { formsInEnglish with stop := some (.behind 0) } rfl found
  refine ⟨saved, ?_, previewed, stats, (ofDry (.inl rfl)).1, stopped, (ofStopped (.inr (.inr (.inl stopped)))).1⟩
  rw [written]
  intro same
  have there := congrArg (fun system : FileSystem => (system.root.at? ["out"]).isSome) same
  cases there

end RunRequest

end FormHarvest
