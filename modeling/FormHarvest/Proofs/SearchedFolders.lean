import FormHarvest.Proofs.RealPlaces

namespace FormHarvest

namespace FileTree

mutual

/-- Whether a disk can hold a tree: its names can stand in paths and lead down, and no folder has one of them twice. -/
def isOrdinary : FileTree → Bool
  | folder entries => areOrdinary entries
  | _ => true

def areOrdinary : List (String × FileTree) → Bool
  | [] => true
  | (name, tree) :: rest =>
    Path.isPart name && name != ".." && tree.isOrdinary && !(rest.map (·.1)).contains name && areOrdinary rest

end

mutual

theorem isNamed_of_isOrdinary (tree : FileTree) (ordinary : tree.isOrdinary = true) : tree.isNamed = true := by
  cases tree with
  | folder entries => exact areNamed_of_areOrdinary entries ordinary
  | _ => rfl

theorem areNamed_of_areOrdinary (entries : List (String × FileTree)) (ordinary : areOrdinary entries = true) :
    areNamed entries = true := by
  cases entries with
  | nil => rfl
  | cons first rest =>
    obtain ⟨name, tree⟩ := first
    simp only [areOrdinary, Bool.and_eq_true] at ordinary
    simp only [areNamed, Bool.and_eq_true]
    exact ⟨⟨ordinary.1.1.1.1, isNamed_of_isOrdinary tree ordinary.1.1.2⟩, areNamed_of_areOrdinary rest ordinary.2⟩

end

variable {root tree inner : FileTree} {entries : List (String × FileTree)} {name : String} {way : List String}

theorem of_mem_areOrdinary (ordinary : areOrdinary entries = true) (member : (name, tree) ∈ entries) :
    Path.isPart name = true ∧ name ≠ ".." ∧ tree.isOrdinary = true := by
  induction entries with
  | nil => cases member
  | cons first rest ih =>
    simp only [areOrdinary, Bool.and_eq_true, bne_iff_ne] at ordinary
    rcases List.mem_cons.mp member with rfl | member
    · exact ⟨ordinary.1.1.1.1, ordinary.1.1.1.2, ordinary.1.1.2⟩
    · exact ih ordinary.2 member

/-- What a name in a folder holds is the one entry with that name. -/
theorem entry?_folder_eq_some_iff (ordinary : areOrdinary entries = true) :
    entry? name (folder entries) = some tree ↔ (name, tree) ∈ entries := by
  induction entries with
  | nil => simp [ entry?]
  | cons first rest ih =>
    obtain ⟨other, held⟩ := first
    simp only [areOrdinary, Bool.and_eq_true] at ordinary
    have others := ih ordinary.2
    rw [ entry?] at others ⊢
    by_cases same : other = name
    · subst same
      have new : (other, tree) ∉ rest := by
        have absent := ordinary.1.2
        simp only [Bool.not_eq_true', List.contains_eq_mem, decide_eq_false_iff_not] at absent
        exact fun member => absent (List.mem_map.mpr ⟨_, member, rfl⟩)
      simp [new, eq_comm]
    · rw [List.find?_cons_of_neg (by simpa using same), others, List.mem_cons]
      simp [Ne.symm same]

theorem at?_append (tree : FileTree) (front back : List String) :
    tree.at? (front ++ back) = (tree.at? front).bind (·.at? back) := by
  induction front generalizing tree with
  | nil => rfl
  | cons name rest ih =>
    rw [List.cons_append, at?, at?]
    cases tree.entry? name with
    | none => rfl
    | some inner => exact ih inner

/-- What stands at the end of a way is ordinary, and so are the names on the way. -/
theorem of_at?_eq_some (ordinary : tree.isOrdinary = true) (found : tree.at? way = some inner) :
    inner.isOrdinary = true ∧ ∀ name ∈ way, Path.isPart name = true ∧ name ≠ ".." := by
  induction way generalizing tree with
  | nil =>
    cases found
    exact ⟨ordinary, List.forall_mem_nil _⟩
  | cons name rest ih =>
    obtain ⟨next, atName, behind⟩ := Option.bind_eq_some_iff.mp found
    cases tree with
    | folder entries =>
      obtain ⟨isPart, down, below⟩ := of_mem_areOrdinary ordinary ((entry?_folder_eq_some_iff ordinary).mp atName)
      obtain ⟨atEnd, others⟩ := ih below behind
      exact ⟨atEnd, List.forall_mem_cons.mpr ⟨⟨isPart, down⟩, others⟩⟩
    | _ => cases atName

/-- The way to a folder leads through folders alone. -/
theorem isPlainWay_of_folder (ordinary : root.isOrdinary = true) (found : root.at? way = some (folder entries)) :
    root.IsPlainWay way where
  names name member := by
    obtain ⟨isPart, down⟩ := (of_at?_eq_some ordinary found).2 name member
    simp only [Path.isPart, Bool.and_eq_true, bne_iff_ne] at isPart
    exact ⟨isPart.1.1, isPart.1.2, down⟩
  noLink front inWay target link := by
    obtain ⟨back, rfl⟩ := inWay
    rw [at?_append, link] at found
    cases back <;> cases found

/-- How many bytes the names on a way take, each behind a slash. -/
def waySize : List String → Nat
  | [] => 0
  | name :: rest => name.utf8ByteSize + 1 + waySize rest

theorem waySize_append (front back : List String) : waySize (front ++ back) = waySize front + waySize back := by
  induction front with
  | nil => simp only [List.nil_append, waySize, Nat.zero_add]
  | cons name rest ih =>
    rw [List.cons_append, waySize, waySize, ih]
    omega

mutual

/-- The size of the longest way into a tree. -/
def reach : FileTree → Nat
  | folder entries => reachOf entries
  | _ => 0

def reachOf : List (String × FileTree) → Nat
  | [] => 0
  | (name, tree) :: rest => max (name.utf8ByteSize + 1 + tree.reach) (reachOf rest)

end

theorem size_le_reachOf (member : (name, tree) ∈ entries) : name.utf8ByteSize + 1 + tree.reach ≤ reachOf entries := by
  induction entries with
  | nil => cases member
  | cons first rest ih =>
    obtain ⟨other, held⟩ := first
    rw [reachOf]
    rcases List.mem_cons.mp member with same | member
    · cases same
      exact Nat.le_max_left _ _
    · exact Nat.le_trans (ih member) (Nat.le_max_right _ _)

theorem waySize_le_reach (found : tree.at? way = some inner) : waySize way ≤ tree.reach := by
  induction way generalizing tree with
  | nil => exact Nat.zero_le _
  | cons name rest ih =>
    obtain ⟨next, atName, behind⟩ := Option.bind_eq_some_iff.mp found
    cases tree with
    | folder entries =>
      obtain ⟨⟨other, _⟩, entry, rfl⟩ := Option.map_eq_some_iff.mp atName
      obtain rfl : other = name := by simpa using List.find?_some entry
      have here := size_le_reachOf (List.mem_of_find?_eq_some entry)
      have inside : waySize rest ≤ _ := ih behind
      dsimp only at inside
      rw [waySize, reach]
      omega
    | _ => cases atName

/-- What stands further on stands in a folder. -/
theorem exists_folder_of_at?_append {names : List String} (further : names ≠ [])
    (there : (root.at? (way ++ names)).isSome = true) : ∃ entries, root.at? way = some (folder entries) := by
  obtain ⟨first, rest, rfl⟩ := List.exists_cons_of_ne_nil further
  rw [at?_append] at there
  cases around : root.at? way with
  | none => simp [around] at there
  | some tree =>
    cases tree with
    | folder entries => exact ⟨entries, rfl⟩
    | file _ => simp [around, at?, entry?] at there
    | link _ => simp [around, at?, entry?] at there

end FileTree

namespace Path

theorem join_join (path : Path) (name : String) (parts : List String) :
    (path.join { parts := [name] }).join { parts } = path.join { parts := name :: parts } := by
  simp [join, isAbsolute]

/-- The text of a path from the current folder that is one name is the name. -/
theorem text_name {name : String} (isPart : isPart name = true) : text { parts := [name] } = name := by
  simp only [Path.isPart, Bool.and_eq_true, bne_iff_ne] at isPart
  simp [text, isPart]

theorem ofText_name {name : String} (isPart : isPart name = true) : ofText name = { parts := [name] } := by
  have proper : IsProper { parts := [name] } := ⟨.inl rfl, by simpa using isPart⟩
  have same := ofText_text proper
  rwa [text_name isPart] at same

end Path

/-- A name that is longer than names of files can be is refused, whatever is there. -/
theorem FileSystem.kind?_of_overlong (system : FileSystem) {name : String} (isPart : Path.isPart name = true)
    (down : name ≠ "..") (noNul : '\x00' ∉ name.toList) (overlong : maxNameSize < name.utf8ByteSize)
    (shortPath : name.utf8ByteSize < maxPathSize) :
    system.kind? (Path.ofText name) = .error (.refused .nameTooLong name none) := by
  have filled := isPart
  simp only [Path.isPart, Bool.and_eq_true, bne_iff_ne] at filled
  rw [Path.ofText_name isPart]
  simp [kind?, wayTo, Path.text_name isPart, noNul, Nat.not_le.mpr shortPath, Path.isAbsolute, wayFrom, down, filled,
    overlong, Except.mapError]

namespace Search

open FileTree

variable {search : Search} {system : FileSystem} {entries : List (String × FileTree)} {way : List String}
  {path found : Path} {walked : String}

/-- Whether a search goes into folders with a name. -/
def entersFolder (search : Search) (name : String) : Bool :=
  !search.excludedFolders.texts.any fun pattern => Glob.accepts pattern name

/-- The path under which a walk comes to a folder, through folders from where it starts. -/
def walkedFrom (walked : String) (folders : List String) : String := folders.foldl walkedPath walked

theorem size_walkedPath (walked name : String) : walked.utf8ByteSize ≤ (walkedPath walked name).utf8ByteSize ∧
    (walkedPath walked name).utf8ByteSize ≤ walked.utf8ByteSize + name.utf8ByteSize + 1 := by
  have slash : "/".utf8ByteSize = 1 := rfl
  unfold walkedPath
  split <;> simp only [String.utf8ByteSize_append, slash] <;> omega

theorem size_le_walkedFrom (walked : String) (folders : List String) :
    walked.utf8ByteSize ≤ (walkedFrom walked folders).utf8ByteSize := by
  induction folders generalizing walked with
  | nil => exact Nat.le_refl _
  | cons name rest ih => exact Nat.le_trans (size_walkedPath walked name).1 (ih _)

theorem size_walkedFrom_le (walked : String) (folders : List String) :
    (walkedFrom walked folders).utf8ByteSize ≤ walked.utf8ByteSize + waySize folders := by
  induction folders generalizing walked with
  | nil => exact Nat.le_refl _
  | cons name rest ih =>
    have first := (size_walkedPath walked name).2
    have behind := ih (walkedPath walked name)
    rw [walkedFrom, List.foldl_cons, ← walkedFrom, waySize]
    omega

/-- A walk to a folder takes the paths of the folders before it. -/
theorem isTaken_of_walkedFrom {folders : List String} (taken : isTaken (walkedFrom walked folders) = true) :
    isTaken walked = true := by
  have longer := size_le_walkedFrom walked folders
  simp only [isTaken, decide_eq_true_eq] at taken ⊢
  omega

theorem exists_mem_belowEntries_iff :
    (∃ listed ∈ belowEntries search system way path walked entries, found ∈ listed.2) ↔
      ∃ name inner, (name, folder inner) ∈ entries ∧ search.entersFolder name = true ∧
        found ∈ below search system (way ++ [name]) (path.join { parts := [name] }) (walkedPath walked name)
          (folder inner) := by
  induction entries with
  | nil => simp [belowEntries]
  | cons first rest ih =>
    obtain ⟨name, tree⟩ := first
    cases tree with
    | folder inner =>
      rw [belowEntries]
      split
      · rename_i excluded
        rw [ih]
        constructor
        · rintro ⟨other, held, member, entered, below⟩
          exact ⟨other, held, .tail _ member, entered, below⟩
        · rintro ⟨other, held, member, entered, below⟩
          rcases List.mem_cons.mp member with same | member
          · cases same
            simp [entersFolder, excluded] at entered
          · exact ⟨other, held, member, entered, below⟩
      · rename_i included
        constructor
        · rintro ⟨listed, member, below⟩
          rcases List.mem_cons.mp member with rfl | member
          · exact ⟨name, inner, .head _, by simpa [entersFolder] using included, below⟩
          · obtain ⟨other, held, member, entered, below⟩ := ih.mp ⟨listed, member, below⟩
            exact ⟨other, held, .tail _ member, entered, below⟩
        · rintro ⟨other, held, member, entered, below⟩
          rcases List.mem_cons.mp member with same | member
          · cases same
            exact ⟨_, .head _, below⟩
          · obtain ⟨listed, member, below⟩ := ih.mpr ⟨other, held, member, entered, below⟩
            exact ⟨listed, .tail _ member, below⟩
    | file content => simpa [belowEntries] using ih
    | link target => simpa [belowEntries] using ih

/-- Below a folder that the system takes stand its own entries that lead to no folder, and what is below the folders
that are entered. -/
theorem mem_below_folder_iff :
    found ∈ below search system way path walked (folder entries) ↔ isTaken walked = true ∧
      ((∃ name tree, (name, tree) ∈ entries ∧
          leadsToFolder system (way ++ [name]) (walkedPath walked name) = false ∧
          found = path.join { parts := [name] }) ∨
        ∃ name inner, (name, folder inner) ∈ entries ∧ search.entersFolder name = true ∧
          found ∈ below search system (way ++ [name]) (path.join { parts := [name] }) (walkedPath walked name)
            (folder inner)) := by
  rw [below]
  split
  case isFalse untaken => simp [untaken]
  rename_i taken
  rw [List.mem_append, and_iff_right taken]
  refine or_congr ?_ ?_
  · simp only [List.mem_map, List.mem_mergeSort, List.mem_filter, Bool.not_eq_true']
    constructor
    · rintro ⟨_, ⟨⟨⟨name, tree⟩, member, rfl⟩, noFolder⟩, rfl⟩
      exact ⟨name, tree, member, noFolder, rfl⟩
    · rintro ⟨name, tree, member, noFolder, rfl⟩
      exact ⟨name, ⟨⟨(name, tree), member, rfl⟩, noFolder⟩, rfl⟩
  · rw [← exists_mem_belowEntries_iff]
    simp only [List.mem_flatMap, List.mem_mergeSort]

theorem exists_of_mem_below (entries : List (String × FileTree)) (ordinary : areOrdinary entries = true)
    {way : List String} {path found : Path} {walked : String}
    (member : found ∈ below search system way path walked (folder entries)) :
    ∃ names name, (∀ folder ∈ names, search.entersFolder folder = true) ∧
      ((folder entries).at? (names ++ [name])).isSome = true ∧ isTaken (walkedFrom walked names) = true ∧
      leadsToFolder system (way ++ names ++ [name]) (walkedPath (walkedFrom walked names) name) = false ∧
      found = path.join { parts := names ++ [name] } := by
  obtain ⟨taken, ⟨name, tree, entry, noFolder, rfl⟩ | ⟨name, inner, entry, entered, below⟩⟩ :=
    mem_below_folder_iff.mp member
  · refine ⟨[], name, List.forall_mem_nil _, ?_, taken, by rwa [List.append_nil], rfl⟩
    simp [at?, (entry?_folder_eq_some_iff ordinary).mpr entry]
  · obtain ⟨names, last, others, there, taken, noFolder, rfl⟩ :=
      exists_of_mem_below inner (of_mem_areOrdinary ordinary entry).2.2 below
    refine ⟨name :: names, last, List.forall_mem_cons.mpr ⟨entered, others⟩, ?_, taken, ?_, Path.join_join ..⟩
    · rw [List.cons_append, at?, (entry?_folder_eq_some_iff ordinary).mpr entry]
      exact there
    · rwa [List.append_cons way]
termination_by sizeOf entries
decreasing_by
  have smaller := List.sizeOf_lt_of_mem entry
  simp only [Prod.mk.sizeOf_spec, folder.sizeOf_spec] at smaller
  omega

theorem mem_below_of_at? {entries : List (String × FileTree)} (ordinary : areOrdinary entries = true)
    {names : List String} {name : String} (entered : ∀ folder ∈ names, search.entersFolder folder = true)
    (there : ((folder entries).at? (names ++ [name])).isSome = true) (taken : isTaken (walkedFrom walked names) = true)
    (noFolder : leadsToFolder system (way ++ names ++ [name]) (walkedPath (walkedFrom walked names) name) = false) :
    path.join { parts := names ++ [name] } ∈ below search system way path walked (folder entries) := by
  induction names generalizing entries way path walked with
  | nil =>
    obtain ⟨tree, atName⟩ := Option.isSome_iff_exists.mp there
    obtain ⟨_, atName, ⟨⟩⟩ := Option.bind_eq_some_iff.mp atName
    rw [List.append_nil] at noFolder
    have entry := (entry?_folder_eq_some_iff ordinary).mp atName
    exact mem_below_folder_iff.mpr ⟨taken, .inl ⟨name, tree, entry, noFolder, rfl⟩⟩
  | cons first rest ih =>
    obtain ⟨around, atAround⟩ := exists_folder_of_at?_append (List.cons_ne_nil _ _) there
    obtain ⟨inner, atFirst, behind⟩ := Option.bind_eq_some_iff.mp atAround
    have entry := (entry?_folder_eq_some_iff ordinary).mp atFirst
    rw [List.cons_append, at?, atFirst] at there
    cases inner with
    | folder inner =>
      rw [List.forall_mem_cons] at entered
      rw [List.append_cons way] at noFolder
      refine mem_below_folder_iff.mpr ⟨isTaken_of_walkedFrom taken, .inr ⟨first, inner, entry, entered.1, ?_⟩⟩
      rw [List.cons_append, ← Path.join_join path first (rest ++ [name])]
      exact ih (of_mem_areOrdinary ordinary entry).2.2 entered.2 there taken noFolder
    | _ => cases rest <;> cases behind

/-- Below a folder stands what leads to no folder, on a way through folders that are entered and whose walked paths the
system takes. -/
theorem mem_below_iff (ordinary : areOrdinary entries = true) :
    found ∈ below search system way path walked (folder entries) ↔
      ∃ names name, (∀ folder ∈ names, search.entersFolder folder = true) ∧
        ((folder entries).at? (names ++ [name])).isSome = true ∧ isTaken (walkedFrom walked names) = true ∧
        leadsToFolder system (way ++ names ++ [name]) (walkedPath (walkedFrom walked names) name) = false ∧
        found = path.join { parts := names ++ [name] } := by
  refine ⟨exists_of_mem_below entries ordinary, ?_⟩
  rintro ⟨names, name, entered, there, taken, noFolder, rfl⟩
  exact mem_below_of_at? ordinary entered there taken noFolder

/-- A name that leads to a file leads to no folder. -/
theorem leadsToFolder_eq_false {depth : Nat} {name : String} {place : List String} {content : ByteArray}
    (isPart : Path.isPart name = true) (leads : system.root.Leads depth way [name] place)
    (file : system.root.at? place = some (.file content)) (walked : String) :
    leadsToFolder system (way ++ [name]) walked = false := by
  unfold leadsToFolder
  rw [List.dropLast_concat, List.getLast?_concat, Option.toList_some, Bool.and_eq_false_iff]
  right
  split
  · rename_i real there
    have leads' := FileSystem.leads_of_wayFrom there
    rw [List.filter_cons_of_pos (FileSystem.leadsOn_of_isPart isPart), List.filter_nil] at leads'
    obtain rfl := leads.unique leads'
    rw [file]
    rfl
  · rfl

/-! ### What an entry of the scan list stands for -/

/-- The paths that an entry of the scan list stands for: its own, and those of what stands below it on a way through
folders that are entered. The folders on the way are listed beside the path. -/
inductive Reaches (search : Search) (system : FileSystem) (entry : Path) : Path → List String → Prop
  | itself {way : List String} (there : system.wayTo .target entry = .ok way) : Reaches search system entry entry []
  | below {way names : List String} {name : String} (there : system.wayTo .target entry = .ok way)
    (entered : ∀ folder ∈ names, search.entersFolder folder = true)
    (listed : (system.root.at? (way ++ names ++ [name])).isSome = true) :
    Reaches search system entry (entry.join { parts := names ++ [name] }) names

/-- Whether the system takes the paths under which a walk comes to the folders below an entry. -/
def walks (entry : Path) (folders : List String) : Bool := isTaken (walkedFrom entry.text folders)

theorem matchesSome_of_noFault {patterns : Texts} (noFault : patterns.fault = none) (name : String) :
    matchesSome patterns name = .ok (patterns.texts.any fun pattern => Glob.accepts pattern name) := by
  rw [matchesSome, Texts.anyText, Texts.whole, noFault]
  split
  · rename_i accepted
    rw [accepted]
  · rename_i refused
    rw [Bool.not_eq_true] at refused
    rw [refused]
    rfl

theorem checkFolders_of_noFault (noFault : search.excludedFolders.fault = none) (walked : String) (tree : FileTree) :
    search.checkFolders system way walked tree = .ok () := by
  cases tree with
  | folder entries =>
    rw [checkFolders]
    induction (entries.map (·.1)).filter fun name =>
      leadsToFolder system (way ++ [name]) (walkedPath walked name) with
    | nil => rfl
    | cons name rest ih =>
      rw [List.forM_eq_forM] at ih ⊢
      rw [List.forM_cons, matchesSome_of_noFault noFault]
      exact ih
  | _ => rfl

/-- An entry that the system does not refuse stands for a file, for what is below a folder, or for nothing. -/
theorem candidates?_of_accepted (noFault : search.excludedFolders.fault = none)
    (accepted : ∀ fault, system.kind? path ≠ .error fault) :
    search.candidates? system path = .ok (match system.wayTo .target path with
      | .ok way =>
        match system.root.at? way with
        | some (.file _) => some [path]
        | some (.folder entries) => some (below search system way path path.text (.folder entries))
        | _ => none
      | .error _ => none) := by
  cases there : system.wayTo .target path with
  | error fault =>
    have nothing : system.kind? path = .ok none := by
      unfold FileSystem.kind? at accepted ⊢
      rw [there] at accepted ⊢
      split at accepted
      · rename_i same
        cases same
      · exact absurd rfl (accepted _)
      · rfl
    rw [candidates?, nothing]
    rfl
  | ok way =>
    cases atWay : system.root.at? way with
    | none =>
      simp only [candidates?, FileSystem.kind?, there, atWay]
      rfl
    | some tree =>
      cases tree <;> simp only [candidates?, FileSystem.kind?, there, atWay, Option.getD_some,
        checkFolders_of_noFault noFault] <;> rfl

section Entries

variable {entry : Path} {names place : List String} {name : String} {content : ByteArray}

/-- The last name of a path below an entry leads on from the folder that it stands in. -/
theorem leads_of_leadsTo_join (ordinary : system.root.isOrdinary = true) (proper : entry.IsProper)
    (there : system.wayTo .target entry = .ok way)
    (listed : (system.root.at? (way ++ names ++ [name])).isSome = true)
    (leads : system.LeadsTo (entry.join { parts := names ++ [name] }) place) :
    system.root.Leads FileSystem.maxNestedLinks (way ++ names) [name] place := by
  have leads : system.root.Leads FileSystem.maxNestedLinks (system.startOf entry) (entry.parts ++ (names ++ [name]))
      place := leads
  obtain ⟨middle, toEntry, further⟩ := leads.exists_of_append
  obtain rfl : middle = way := toEntry.unique (FileSystem.leadsTo_of_wayTo proper there)
  obtain ⟨around, toFolder, last⟩ := further.exists_of_append
  obtain ⟨entries, folder⟩ := exists_folder_of_at?_append (List.cons_ne_nil _ _) listed
  have down : system.root.Leads FileSystem.maxNestedLinks middle names (middle ++ names) :=
    (isPlainWay_of_folder ordinary folder).leads
  obtain rfl := toFolder.unique down
  exact last

theorem reaches_iff {folders : List String} (there : system.wayTo .target entry = .ok way) :
    search.Reaches system entry path folders ↔ path = entry ∧ folders = [] ∨ ∃ name,
      (∀ folder ∈ folders, search.entersFolder folder = true) ∧
      (system.root.at? (way ++ folders ++ [name])).isSome = true ∧
      path = entry.join { parts := folders ++ [name] } := by
  constructor
  · intro reaches
    cases reaches with
    | itself => exact .inl ⟨rfl, rfl⟩
    | below there' entered listed =>
      cases there.symm.trans there'
      exact .inr ⟨_, entered, listed, rfl⟩
  · rintro (⟨rfl, rfl⟩ | ⟨name, entered, listed, rfl⟩)
    · exact .itself there
    · exact .below there entered listed

theorem isTaken_of_wayTo {ending : FileSystem.WayEnd} (there : system.wayTo ending path = .ok way) :
    isTaken path.text = true := by
  unfold FileSystem.wayTo at there
  dsimp only at there
  split at there
  · cases there
  split at there
  · cases there
  · simpa [isTaken] using ‹¬FileSystem.maxPathSize ≤ _›

/-- What is no folder stands for itself alone. -/
theorem reaches_iff_of_noFolder {folders : List String} (there : system.wayTo .target entry = .ok way)
    (noFolder : ∀ entries, system.root.at? way ≠ some (.folder entries)) :
    search.Reaches system entry path folders ↔ path = entry ∧ folders = [] := by
  rw [reaches_iff there, or_iff_left]
  rintro ⟨name, -, listed, -⟩
  rw [List.append_assoc] at listed
  obtain ⟨entries, folder⟩ := exists_folder_of_at?_append (by simp) listed
  exact noFolder entries folder

/-- The paths to a file that are looked at for an entry are those that the entry stands for, as far as the system takes
the paths of the folders on the way. -/
theorem mem_candidates_iff (ordinary : system.root.isOrdinary = true) (noFault : search.excludedFolders.fault = none)
    (proper : entry.IsProper) (accepted : ∀ fault, system.kind? entry ≠ .error fault) {listed : Option (List Path)}
    (given : search.candidates? system entry = .ok listed) (leads : system.LeadsTo path place)
    (file : system.root.at? place = some (.file content)) :
    path ∈ listed.getD [] ↔ ∃ folders, search.Reaches system entry path folders ∧ walks entry folders = true := by
  rw [candidates?_of_accepted noFault accepted] at given
  cases there : system.wayTo .target entry with
  | error fault =>
    rw [there] at given
    obtain rfl := Except.ok.inj given
    refine ⟨nofun, fun ⟨folders, reaches, _⟩ => ?_⟩
    cases reaches with
    | itself there' => cases there.symm.trans there'
    | below there' => cases there.symm.trans there'
  | ok way =>
    rw [there] at given
    -- the entry itself leads to the file only where the file is what stands at its way
    have atEntry (same : path = entry) : system.root.at? way = some (.file content) := by
      subst same
      rwa [(FileSystem.leadsTo_of_wayTo proper there).unique leads]
    have nothing (noFile : ∀ content, system.root.at? way ≠ some (.file content))
        (noFolder : ∀ entries, system.root.at? way ≠ some (.folder entries)) :
        ¬∃ folders, search.Reaches system entry path folders ∧ walks entry folders = true := by
      rintro ⟨folders, reaches, -⟩
      exact noFile content (atEntry ((reaches_iff_of_noFolder there noFolder).mp reaches).1)
    cases atWay : system.root.at? way with
    | none =>
      simp only [atWay] at given
      obtain rfl := Except.ok.inj given
      exact iff_of_false List.not_mem_nil (nothing (by simp [atWay]) (by simp [atWay]))
    | some tree =>
      simp only [atWay] at given atEntry
      cases tree with
      | file _ =>
        obtain rfl := Except.ok.inj given
        simp only [reaches_iff_of_noFolder there (show ∀ entries, _ from by simp [atWay]), Option.getD_some,
          List.mem_singleton]
        exact ⟨fun same => ⟨[], ⟨same, rfl⟩, isTaken_of_wayTo there⟩, fun ⟨_, same, _⟩ => same.1⟩
      | link _ =>
        obtain rfl := Except.ok.inj given
        exact iff_of_false List.not_mem_nil (nothing (by simp [atWay]) (by simp [atWay]))
      | folder entries =>
        obtain rfl := Except.ok.inj given
        have elsewhere (folders : List String) : ¬(path = entry ∧ folders = []) := fun same => nomatch atEntry same.1
        simp only [reaches_iff there, elsewhere, false_or, Option.getD_some,
          mem_below_iff (of_at?_eq_some ordinary atWay).1]
        have further (names : List String) (name : String) :
            system.root.at? (way ++ names ++ [name]) = (folder entries).at? (names ++ [name]) := by
          rw [List.append_assoc, at?_append, atWay, Option.bind_some]
        constructor
        · rintro ⟨names, name, entered, listed, taken, -, same⟩
          exact ⟨names, ⟨name, entered, by rwa [further], same⟩, taken⟩
        · rintro ⟨names, ⟨name, entered, listed, rfl⟩, taken⟩
          obtain ⟨held, atName⟩ := Option.isSome_iff_exists.mp listed
          have isPart := ((of_at?_eq_some ordinary atName).2 name (by simp)).1
          have last := leads_of_leadsTo_join ordinary proper there listed leads
          exact ⟨names, name, entered, by rwa [← further], taken, leadsToFolder_eq_false isPart last file _, rfl⟩

end Entries

end Search

end FormHarvest
