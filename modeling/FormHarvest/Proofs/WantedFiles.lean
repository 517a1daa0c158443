import FormHarvest.Proofs.SearchedFolders

namespace FormHarvest

/-- A file system with ordinary names and a current folder, in which no link leads in a circle or goes through more
links than are followed. -/
structure FileSystem.IsWellFormed (system : FileSystem) : Prop where
  ordinary : system.root.isOrdinary = true
  current : ∃ entries, system.root.at? system.current = some (.folder entries)
  ends : system.root.EndsLinks (maxNestedLinks - 1)

/-- Whether a path to a place was found. -/
def Findings.Holds (found : Findings) (system : FileSystem) (place : List String) : Prop :=
  ∃ path ∈ found.paths, system.LeadsTo path place

namespace Search

/-- All that is given with a search are texts. -/
structure IsWhole (search : Search) : Prop where
  scanned : search.scanned.fault = none
  excludedFolders : search.excludedFolders.fault = none
  excludedNames : search.excludedNames.fault = none
  endings : search.endings.fault = none

/-- Whether a search looks for files with a name: one that has one of the endings, whatever the case of its letters,
and that matches no excluded name. -/
def wantsName (search : Search) (name : String) : Bool :=
  (search.endings.texts.any fun ending => (lowercase ending).toList.isSuffixOf (lowercase name).toList) &&
    !search.excludedNames.texts.any fun pattern => Glob.accepts pattern name

/-- Whether a path has a name that is looked for and leads to a place. -/
def Suits (search : Search) (system : FileSystem) (path : Path) (place : List String) : Prop :=
  search.wantsName path.name = true ∧ system.LeadsTo path place

/-- Whether some path to a place is one that an entry of the scan list stands for, with a name that is looked for. -/
def Wants (search : Search) (system : FileSystem) (place : List String) : Prop :=
  ∃ entry ∈ search.scanned.texts, ∃ path folders, search.Reaches system (Path.ofText entry) path folders ∧
    search.Suits system path place

/-- Whether a place is looked for where a walk comes to: the system takes the paths of the folders on the way. -/
def WantsOnWalk (search : Search) (system : FileSystem) (place : List String) : Prop :=
  ∃ entry ∈ search.scanned.texts, ∃ path folders, search.Reaches system (Path.ofText entry) path folders ∧
    walks (Path.ofText entry) folders = true ∧ search.Suits system path place

/-- Each file that is looked for is found once, whatever the order of the scan list and however often it names an
entry. -/
structure FindsEachOnce (search : Search) (system : FileSystem) (found : Findings) : Prop where
  once : found.paths.Pairwise fun first second => ∀ place, system.LeadsTo first place → ¬system.LeadsTo second place
  wanted : ∀ place content, system.root.at? place = some (.file content) →
    (found.Holds system place ↔ search.Wants system place)
  orders : ∀ order : Texts, order.fault = none →
    (∀ entry, entry ∈ order.texts ↔ entry ∈ search.scanned.texts) →
    ∃ others, ({ search with scanned := order }).run system = .ok others ∧
      ∀ place content, system.root.at? place = some (.file content) →
        (others.Holds system place ↔ found.Holds system place)

variable {search : Search} {system : FileSystem} {found : Findings} {path entry : Path} {place : List String}

theorem holds_iff_mem_places (wellFormed : system.IsWellFormed) (sound : found.IsSound system) :
    found.Holds system place ↔ place ∈ found.places := by
  rw [sound.places, List.mem_map]
  refine exists_congr fun path => and_congr_right fun _ => ⟨FileSystem.realWay_of_leadsTo, ?_⟩
  rintro rfl
  exact FileSystem.leadsTo_realWay wellFormed.ends path

theorem isCircle_eq_false (wellFormed : system.IsWellFormed) (proper : path.IsProper) :
    system.isCircle (system.realWay path) = false := by
  obtain ⟨entries, current⟩ := wellFormed.current
  exact FileSystem.isCircle_realWay wellFormed.ends (FileTree.isPlainWay_of_folder wellFormed.ordinary current) proper

/-- A path that is looked at adds its place, if its name is looked for. -/
theorem consider_gathers (wellFormed : system.IsWellFormed) (whole : search.IsWhole) (proper : path.IsProper)
    (found : Findings) :
    ∃ next, search.consider system found path = .ok next ∧ ∀ place,
      place ∈ next.places ↔ place ∈ found.places ∨ search.wantsName path.name = true ∧ system.realWay path = place := by
  unfold consider
  dsimp only
  rw [matchesSome_of_noFault whole.excludedNames, isCircle_eq_false wellFormed proper]
  unfold wantsName
  split
  · rename_i noEnding
    refine ⟨found, rfl, fun place => ?_⟩
    rw [Bool.not_eq_true'] at noEnding
    simp [noEnding]
  · rename_i ends
    rw [Bool.not_eq_true, Bool.not_eq_false'] at ends
    rw [ends]
    cases excluded : search.excludedNames.texts.any fun pattern => Glob.accepts pattern path.name with
    | true =>
      refine ⟨_, rfl, fun place => ?_⟩
      simp
    | false =>
      dsimp only
      rw [if_neg Bool.false_ne_true]
      split
      · rename_i known
        refine ⟨found, rfl, fun place => ⟨.inl, fun holds => holds.elim id ?_⟩⟩
        rintro ⟨-, rfl⟩
        exact List.contains_iff_mem.mp known
      · refine ⟨_, rfl, fun place => ?_⟩
        simp [eq_comm]

/-- The places that an entry of the scan list gives. -/
def Gives (search : Search) (system : FileSystem) (entry : String) (place : List String) : Prop :=
  ∃ listed, search.candidates? system (Path.ofText entry) = .ok listed ∧
    ∃ path ∈ listed.getD [], search.wantsName path.name = true ∧ system.realWay path = place

theorem scan_gathers (wellFormed : system.IsWellFormed) (whole : search.IsWhole) {entry : String}
    (accepted : ∀ fault, system.kind? (Path.ofText entry) ≠ .error fault) (found : Findings) :
    ∃ next, search.scan system found entry = .ok next ∧
      ∀ place, place ∈ next.places ↔ place ∈ found.places ∨ search.Gives system entry place := by
  obtain ⟨listed, given⟩ : ∃ listed, search.candidates? system (Path.ofText entry) = .ok listed :=
    ⟨_, candidates?_of_accepted whole.excludedFolders accepted⟩
  have gives_iff (place : List String) : search.Gives system entry place ↔
      ∃ path ∈ listed.getD [], search.wantsName path.name = true ∧ system.realWay path = place := by
    unfold Gives
    rw [given]
    simp
  simp only [gives_iff]
  cases listed with
  | none =>
    unfold scan
    rw [given]
    exact ⟨_, rfl, by simp⟩
  | some candidates =>
    rw [scan_of_candidates given]
    have considered (path : Path) (member : path ∈ candidates) := consider_gathers wellFormed whole
      (isProper_of_mem_candidates (FileTree.isNamed_of_isOrdinary _ wellFormed.ordinary) (Path.isProper_ofText entry)
        given member)
    exact foldlM_gathers considered found

theorem gives_iff_exists_reaches (wellFormed : system.IsWellFormed) (whole : search.IsWhole) {entry : String}
    (accepted : ∀ fault, system.kind? (Path.ofText entry) ≠ .error fault) {content : ByteArray}
    (file : system.root.at? place = some (.file content)) :
    search.Gives system entry place ↔ ∃ path folders, search.Reaches system (Path.ofText entry) path folders ∧
      walks (Path.ofText entry) folders = true ∧ search.Suits system path place := by
  have candidate (listed : Option (List Path)) (given : search.candidates? system (Path.ofText entry) = .ok listed)
      (path : Path) (leads : system.LeadsTo path place) :=
    mem_candidates_iff wellFormed.ordinary whole.excludedFolders (Path.isProper_ofText entry) accepted given leads file
  constructor
  · rintro ⟨listed, given, path, member, wanted, rfl⟩
    have leads := FileSystem.leadsTo_realWay wellFormed.ends path
    obtain ⟨folders, reaches, walked⟩ := (candidate listed given path leads).mp member
    exact ⟨path, folders, reaches, walked, wanted, leads⟩
  · rintro ⟨path, folders, reaches, walked, wanted, leads⟩
    have given := candidates?_of_accepted whole.excludedFolders accepted
    exact ⟨_, given, path, (candidate _ given path leads).mpr ⟨folders, reaches, walked⟩, wanted,
      FileSystem.realWay_of_leadsTo leads⟩

theorem scan_of_refused {entry : String} {fault : FileFault}
    (refused : system.kind? (Path.ofText entry) = .error fault) :
    search.scan system found entry = .error (.file fault, found) := by
  unfold scan candidates?
  rw [refused]
  rfl

theorem run_of_isWhole (whole : search.IsWhole) :
    search.run system = search.scanned.texts.foldlM (search.scan system) {} := by
  unfold run
  rw [whole.endings, whole.scanned]
  exact bind_pure _

/-- A search that is not broken off finds all files that it looks for where a walk comes to, and no other ones. -/
theorem exists_run_of_accepted (wellFormed : system.IsWellFormed) (whole : search.IsWhole)
    (accepted : ∀ entry ∈ search.scanned.texts, ∀ fault, system.kind? (Path.ofText entry) ≠ .error fault) :
    ∃ found, search.run system = .ok found ∧ found.IsSound system ∧
      ∀ place content, system.root.at? place = some (.file content) →
        (found.Holds system place ↔ search.WantsOnWalk system place) := by
  have scanned (entry : String) (member : entry ∈ search.scanned.texts) :=
    scan_gathers wellFormed whole (accepted entry member)
  obtain ⟨found, run, gathered⟩ := foldlM_gathers scanned {}
  rw [← run_of_isWhole whole] at run
  have sound := isSound_run (FileTree.isNamed_of_isOrdinary _ wellFormed.ordinary) run
  refine ⟨found, run, sound, fun place content file => ?_⟩
  rw [holds_iff_mem_places wellFormed sound, gathered, or_iff_right List.not_mem_nil]
  exact exists_congr fun entry => and_congr_right fun member =>
    gives_iff_exists_reaches wellFormed whole (accepted entry member) file

theorem reaches_congr {order : Texts} {folders : List String} :
    ({ search with scanned := order } : Search).Reaches system entry path folders ↔
      search.Reaches system entry path folders := by
  constructor <;> rintro (there | ⟨there, entered, listed⟩)
  · exact .itself there
  · exact .below there entered listed
  · exact .itself there
  · exact .below there entered listed

/-- What is looked for depends on which entries are scanned, and not on their order. -/
theorem wantsOnWalk_congr {order : Texts} (same : ∀ entry, entry ∈ order.texts ↔ entry ∈ search.scanned.texts) :
    ({ search with scanned := order } : Search).WantsOnWalk system place ↔ search.WantsOnWalk system place :=
  exists_congr fun entry => and_congr (same entry) <| exists_congr fun _ => exists_congr fun _ =>
    and_congr_left' reaches_congr

theorem WantsOnWalk.wants (wanted : search.WantsOnWalk system place) : search.Wants system place := by
  obtain ⟨entry, member, path, folders, reaches, -, suits⟩ := wanted
  exact ⟨entry, member, path, folders, reaches, suits⟩

/-- A search finds each file that it looks for once, whatever the order of the scan list, unless the system refuses an
entry of that list or the path under which a walk comes to a folder with such a file. -/
theorem findsEachOnce_iff (wellFormed : system.IsWellFormed) (whole : search.IsWhole) :
    (∃ found, search.run system = .ok found ∧ search.FindsEachOnce system found) ↔
      (∀ entry ∈ search.scanned.texts, ∀ fault, system.kind? (Path.ofText entry) ≠ .error fault) ∧
        ∀ place content, system.root.at? place = some (.file content) → search.Wants system place →
          search.WantsOnWalk system place := by
  constructor
  · rintro ⟨found, run, finds⟩
    have accepted : ∀ entry ∈ search.scanned.texts, ∀ fault, system.kind? (Path.ofText entry) ≠ .error fault := by
      intro entry member fault refused
      rw [run_of_isWhole whole] at run
      obtain ⟨state, next, taken⟩ := exists_step_of_foldlM_eq_ok run member
      rw [scan_of_refused refused] at taken
      cases taken
    refine ⟨accepted, fun place content file wanted => ?_⟩
    obtain ⟨others, again, -, gathered⟩ := exists_run_of_accepted wellFormed whole accepted
    obtain rfl : found = others := Except.ok.inj (run.symm.trans again)
    exact (gathered place content file).mp ((finds.wanted place content file).mpr wanted)
  · rintro ⟨accepted, walked⟩
    obtain ⟨found, run, sound, gathered⟩ := exists_run_of_accepted wellFormed whole accepted
    refine ⟨found, run, ?_, fun place content file => ?_, fun order noFault same => ?_⟩
    · have distinct := sound.distinct
      rw [sound.places, List.Nodup, List.pairwise_map] at distinct
      refine distinct.imp fun differ place first second => differ ?_
      rw [FileSystem.realWay_of_leadsTo first, FileSystem.realWay_of_leadsTo second]
    · exact (gathered place content file).trans ⟨WantsOnWalk.wants, walked place content file⟩
    · have whole' : ({ search with scanned := order } : Search).IsWhole :=
        ⟨noFault, whole.excludedFolders, whole.excludedNames, whole.endings⟩
      obtain ⟨others, run, -, gathered'⟩ := exists_run_of_accepted wellFormed whole' fun entry member =>
        accepted entry ((same entry).mp member)
      refine ⟨others, run, fun place content file => ?_⟩
      rw [gathered place content file, gathered' place content file, wantsOnWalk_congr same]

/-- Where all ways of the tree are short beside the entries of the scan list, the system takes every path on a walk. -/
theorem WantsOnWalk.of_reach
    (short : ∀ entry ∈ search.scanned.texts,
      (Path.ofText entry).text.utf8ByteSize + system.root.reach < FileSystem.maxPathSize)
    (wanted : search.Wants system place) : search.WantsOnWalk system place := by
  obtain ⟨entry, member, path, folders, reaches, suits⟩ := wanted
  refine ⟨entry, member, path, folders, reaches, ?_, suits⟩
  have room := short entry member
  have bound := size_walkedFrom_le (Path.ofText entry).text folders
  have inside : FileTree.waySize folders ≤ system.root.reach := by
    cases reaches with
    | itself => exact Nat.zero_le _
    | @below way _ name _ _ listed =>
      obtain ⟨tree, atName⟩ := Option.isSome_iff_exists.mp listed
      have whole := FileTree.waySize_le_reach atName
      simp only [FileTree.waySize_append] at whole
      omega
  rw [walks, isTaken, decide_eq_true_eq]
  omega

/-- A page that is reached by a link too, beside one in a folder of its own. -/
def linkedPages : FileSystem where
  root := .folder [("work", .folder [("src", .folder [("Copy.php", .link "Form/Person.PHP"),
    ("Form", .folder [("Person.PHP", .file ⟨#[]⟩)]), ("vendor", .folder [("Bar.php", .file ⟨#[]⟩)])])])]
  current := ["work"]

/-- The pages outside `vendor`, looked for where they are, where only some of them are, and where nothing is. -/
def ownPages : Search where
  scanned := { texts := ["src/Form", "nowhere", "src", "src/Form"] }
  excludedFolders := { texts := ["vendor"] }
  excludedNames := { texts := ["*Test.php"] }

theorem linkedPages_isWellFormed : linkedPages.IsWellFormed := by
  refine ⟨by decide, ⟨_, rfl⟩, FileTree.endsLinks_of_links fun link member => ?_⟩
  obtain rfl : link = ["work", "src", "Copy.php"] := List.mem_singleton.mp member
  refine ⟨"Form/Person.PHP", ["work", "src", "Form", "Person.PHP"], rfl, ?_⟩
  exact .along (by decide) nofun (.along (by decide) nofun .here)

theorem wayTo_linkedPages :
    linkedPages.wayTo .target (Path.ofText "src/Form") = .ok ["work", "src", "Form"] ∧
    linkedPages.wayTo .target (Path.ofText "src") = .ok ["work", "src"] ∧
    linkedPages.wayTo .target (Path.ofText "nowhere") = .ok ["work", "nowhere"] := by
  have form : Path.ofText "src/Form" = ⟨"", ["src", "Form"]⟩ := by decide
  have nowhere : Path.ofText "nowhere" = ⟨"", ["nowhere"]⟩ := by decide
  have src : Path.ofText "src" = ⟨"", ["src"]⟩ := by decide
  have short : ∀ name ∈ ["src", "Form", "nowhere"], ¬FileSystem.maxNameSize < name.utf8ByteSize := by decide
  have shortPath : ∀ path ∈ ["src", "src/Form", "nowhere"], ¬FileSystem.maxPathSize ≤ path.utf8ByteSize := by decide
  simp only [List.forall_mem_cons] at short shortPath
  refine ⟨?_, ?_, ?_⟩ <;>
    simp [form, nowhere, src, FileSystem.wayTo, Path.text, Path.isAbsolute, FileSystem.wayFrom, linkedPages,
      FileTree.at?, FileTree.entry?, short, shortPath, Except.mapError]

theorem kind?_linkedPages : ∀ entry ∈ ownPages.scanned.texts, ∀ fault,
    linkedPages.kind? (Path.ofText entry) ≠ .error fault := by
  obtain ⟨form, src, nowhere⟩ := wayTo_linkedPages
  simp [ownPages, FileSystem.kind?, form, nowhere, src]

theorem ownPages_findsEachOnce : ∃ found, ownPages.run linkedPages = .ok found ∧
    ownPages.FindsEachOnce linkedPages found ∧ found.Holds linkedPages ["work", "src", "Form", "Person.PHP"] := by
  obtain ⟨found, run, finds⟩ :=
    (findsEachOnce_iff linkedPages_isWellFormed ⟨rfl, rfl, rfl, rfl⟩).mpr
      ⟨kind?_linkedPages, fun _ _ _ => .of_reach (by decide +kernel)⟩
  refine ⟨found, run, finds, (finds.wanted _ ⟨#[]⟩ rfl).mpr ?_⟩
  have toForm := FileSystem.leadsTo_of_wayTo (Path.isProper_ofText "src/Form") wayTo_linkedPages.1
  refine ⟨"src/Form", by decide, (Path.ofText "src/Form").join { parts := ["Person.PHP"] }, [],
    .below wayTo_linkedPages.1 (List.forall_mem_nil _) rfl, by decide +kernel, ?_⟩
  exact FileTree.Leads.append toForm (.along (by decide) nofun .here)

/-- A name that is one byte longer than names of files can be. -/
def overlongName : String := String.ofList (List.replicate 256 'x')

/-- A page, looked for behind an entry that no file can have. -/
def refusedEntry : Search where
  scanned := { texts := [overlongName, "A.php"] }

def onePage : FileSystem where
  root := .folder [("A.php", .file ⟨#[]⟩)]
  current := []

theorem kind?_overlongName :
    onePage.kind? (Path.ofText overlongName) = .error (.refused .nameTooLong overlongName none) := by
  have letters (c : Char) (member : c ∈ overlongName.toList) : c = 'x' := by
    have all : overlongName.toList = List.replicate 256 'x' := String.toList_ofList
    exact List.eq_of_mem_replicate (all ▸ member)
  have named : overlongName ≠ "" ∧ overlongName ≠ "." ∧ overlongName ≠ ".." := by decide +kernel
  have noSlash : '/' ∉ overlongName.toList := fun member => absurd (letters _ member) (by decide)
  have noNul : '\x00' ∉ overlongName.toList := fun member => absurd (letters _ member) (by decide)
  have isPart : Path.isPart overlongName = true := by simp [Path.isPart, named, noSlash]
  exact onePage.kind?_of_overlong isPart named.2.2 noNul (by decide +kernel) (by decide +kernel)

/-- An entry whose name is too long is not passed over as one where nothing is: the page behind it stays unfound. -/
theorem run_refusedEntry :
    refusedEntry.run onePage = .error (.file (.refused .nameTooLong overlongName none), {}) ∧
      refusedEntry.Wants onePage ["A.php"] := by
  constructor
  · rw [run_of_isWhole ⟨rfl, rfl, rfl, rfl⟩]
    show [overlongName, "A.php"].foldlM _ _ = _
    rw [List.foldlM_cons, scan_of_refused kind?_overlongName]
    rfl
  · have path : Path.ofText "A.php" = ⟨"", ["A.php"]⟩ := by decide
    have short : ¬FileSystem.maxNameSize < "A.php".utf8ByteSize := by decide
    have shortPath : ¬FileSystem.maxPathSize ≤ "A.php".utf8ByteSize := by decide
    have there : onePage.wayTo .target (Path.ofText "A.php") = .ok ["A.php"] := by
      simp [path, FileSystem.wayTo, Path.text, Path.isAbsolute, FileSystem.wayFrom, onePage, FileTree.at?,
        FileTree.entry?, short, shortPath, Except.mapError]
    exact ⟨"A.php", .tail _ (.head _), _, _, .itself there, by decide +kernel,
      FileSystem.leadsTo_of_wayTo (Path.isProper_ofText _) there⟩

end Search

end FormHarvest
