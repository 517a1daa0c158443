import FormHarvest.Files.Discovery
import FormHarvest.Proofs.Stations
import Mathlib.Data.List.Nodup

namespace FormHarvest

section Pieces

variable {mark : Char}

theorem piecesAt_of_notMem {text : List Char} (absent : mark ∉ text) : piecesAt mark text = [text] := by
  induction text with
  | nil => rfl
  | cons c rest ih =>
    rw [List.mem_cons, not_or] at absent
    rw [piecesAt, if_neg (by simpa using Ne.symm absent.1), ih absent.2]

theorem piecesAt_append {front : List Char} (absent : mark ∉ front) (rest : List Char) :
    piecesAt mark (front ++ mark :: rest) = front :: piecesAt mark rest := by
  induction front with
  | nil => rw [List.nil_append, piecesAt, if_pos (by simp)]
  | cons c others ih =>
    rw [List.mem_cons, not_or] at absent
    rw [List.cons_append, piecesAt, if_neg (by simpa using Ne.symm absent.1), ih absent.2]

theorem notMem_of_mem_piecesAt {text piece : List Char} (member : piece ∈ piecesAt mark text) : mark ∉ piece := by
  induction text generalizing piece with
  | nil =>
    rw [piecesAt, List.mem_singleton] at member
    subst member
    exact List.not_mem_nil
  | cons c rest ih =>
    rw [piecesAt] at member
    split at member
    · rcases List.mem_cons.mp member with rfl | member
      · exact List.not_mem_nil
      · exact ih member
    · rename_i differ
      have differ : mark ≠ c := fun same => differ (by simp [same])
      split at member
      · rw [List.mem_singleton] at member
        simp [member, differ]
      · rename_i first others pieces
        rcases List.mem_cons.mp member with rfl | member
        · have absent : mark ∉ first := ih (by rw [pieces]; exact List.mem_cons_self)
          simp [differ, absent]
        · exact ih (by rw [pieces]; exact .tail _ member)

end Pieces

namespace Path

/-- Whether a name can stand on the way of a path. -/
def isPart (name : String) : Bool := name != "" && name != "." && !name.toList.contains '/'

/-- A path as it comes from a text. -/
structure IsProper (path : Path) : Prop where
  root : path.root = "" ∨ path.root = "/" ∨ path.root = "//"
  parts : ∀ part ∈ path.parts, isPart part = true

theorem isProper_ofText (text : String) : (ofText text).IsProper := by
  refine ⟨?_, fun part member => ?_⟩
  · show rootOf text.toList = "" ∨ rootOf text.toList = "/" ∨ rootOf text.toList = "//"
    unfold rootOf
    split <;> simp
  · rw [ofText, List.mem_filter] at member
    obtain ⟨piece, found, rfl⟩ := List.mem_map.mp member.1
    have absent := notMem_of_mem_piecesAt found
    simp_all [isPart]

theorem IsProper.join {path : Path} (proper : path.IsProper) {name : String} (isPart : isPart name = true) :
    (path.join { parts := [name] }).IsProper :=
  ⟨proper.root, fun part member => by
    rcases List.mem_append.mp member with member | member
    · exact proper.parts part member
    · rwa [List.mem_singleton.mp member]⟩

/-- The names between the slashes of a text. -/
def namesIn (text : List Char) : List String :=
  ((piecesAt '/' text).map String.ofList).filter fun part => part != "" && part != "."

theorem namesIn_slash (text : List Char) : namesIn ('/' :: text) = namesIn text := by
  simp [namesIn, piecesAt]

theorem namesIn_intercalate {parts : List String} (proper : ∀ part ∈ parts, isPart part = true) :
    namesIn (String.intercalate "/" parts).toList = parts := by
  have apart (part : String) (isPart : isPart part = true) : '/' ∉ part.toList ∧ part ≠ "" ∧ part ≠ "." := by
    simp_all [Path.isPart]
  induction parts with
  | nil => simp [namesIn, piecesAt]
  | cons part rest ih =>
    rw [List.forall_mem_cons] at proper
    obtain ⟨noSlash, nonempty, noDot⟩ := apart part proper.1
    cases rest with
    | nil => simp [namesIn, piecesAt_of_notMem noSlash, nonempty, noDot]
    | cons next others =>
      have chars : (String.intercalate "/" (part :: next :: others)).toList
          = part.toList ++ '/' :: (String.intercalate "/" (next :: others)).toList := by
        rw [String.intercalate_cons_cons, String.toList_append, String.toList_append, List.append_assoc]
        rfl
      have behind := ih proper.2
      unfold namesIn at behind ⊢
      rw [chars, piecesAt_append noSlash, List.map_cons, List.filter_cons, behind]
      simp [nonempty, noDot]

theorem head?_intercalate {parts : List String} (proper : ∀ part ∈ parts, isPart part = true) :
    ∀ c ∈ (String.intercalate "/" parts).toList.head?, c ≠ '/' := by
  cases parts with
  | nil => simp
  | cons part rest =>
    obtain ⟨behind, joined⟩ : ∃ behind, String.intercalate "/" (part :: rest) = part ++ behind := by
      cases rest with
      | nil => exact ⟨"", by simp⟩
      | cons next others => exact ⟨_, by rw [String.intercalate_cons_cons, String.append_assoc]⟩
    have isPart := proper part List.mem_cons_self
    cases chars : part.toList with
    | nil => simp_all [Path.isPart, String.toList_eq_nil_iff]
    | cons c others =>
      rw [joined, String.toList_append, chars]
      rintro _ ⟨⟩ rfl
      simp_all [Path.isPart]

theorem rootOf_append {root : String} (proper : root = "" ∨ root = "/" ∨ root = "//") {text : List Char}
    (noSlash : ∀ c ∈ text.head?, c ≠ '/') : rootOf (root.toList ++ text) = root := by
  cases text with
  | nil => rcases proper with rfl | rfl | rfl <;> rfl
  | cons c rest =>
    have differ : c ≠ '/' := noSlash c rfl
    rcases proper with rfl | rfl | rfl
    · show rootOf (c :: rest) = ""
      rw [rootOf] <;> simp [differ]
    · show rootOf ('/' :: c :: rest) = "/"
      rw [rootOf] <;> simp [differ]
    · show rootOf ('/' :: '/' :: c :: rest) = "//"
      rw [rootOf] <;> simp [differ]

/-- The text of a path stands for the path. -/
theorem ofText_text {path : Path} (proper : path.IsProper) : ofText path.text = path := by
  obtain ⟨root, parts⟩ := path
  have noSlash := head?_intercalate proper.parts
  have names : namesIn (root.toList ++ (String.intercalate "/" parts).toList) = parts := by
    rcases proper.root with same | same | same <;> dsimp only at same <;> subst same
    · exact namesIn_intercalate proper.parts
    · exact (namesIn_slash _).trans (namesIn_intercalate proper.parts)
    · exact (namesIn_slash _).trans ((namesIn_slash _).trans (namesIn_intercalate proper.parts))
  have whole : ofText (root ++ String.intercalate "/" parts) = ⟨root, parts⟩ := by
    have atRoot := rootOf_append proper.root noSlash
    rw [← String.toList_append] at atRoot names
    rw [ofText, atRoot]
    exact congrArg (Path.mk root) names
  rw [text]
  split
  · rename_i empty
    dsimp only at empty
    rw [empty] at whole
    rw [← whole]
    rfl
  · exact whole

theorem text_inj {first second : Path} (one : first.IsProper) (two : second.IsProper) :
    first.text = second.text ↔ first = second :=
  ⟨fun same => by rw [← ofText_text one, same, ofText_text two], fun same => by rw [same]⟩

end Path

namespace FileTree

mutual

/-- Whether all names in a tree can stand in paths, as those of real files can. -/
def isNamed : FileTree → Bool
  | folder entries => areNamed entries
  | _ => true

def areNamed : List (String × FileTree) → Bool
  | [] => true
  | (name, tree) :: rest => Path.isPart name && isNamed tree && areNamed rest

end

theorem of_mem_areNamed {entries : List (String × FileTree)} (named : areNamed entries = true) {name : String}
    {tree : FileTree} (member : (name, tree) ∈ entries) : Path.isPart name = true ∧ tree.isNamed = true := by
  induction entries with
  | nil => cases member
  | cons first rest ih =>
    simp only [areNamed, Bool.and_eq_true] at named
    rcases List.mem_cons.mp member with rfl | member
    · exact named.1
    · exact ih named.2 member

theorem isNamed_of_at? {tree inner : FileTree} (named : tree.isNamed = true) {way : List String}
    (found : tree.at? way = some inner) : inner.isNamed = true := by
  induction way generalizing tree with
  | nil =>
    cases found
    exact named
  | cons name rest ih =>
    obtain ⟨next, atName, found⟩ := Option.bind_eq_some_iff.mp found
    refine ih ?_ found
    cases tree with
    | folder entries =>
      obtain ⟨⟨other, _⟩, entry, rfl⟩ := Option.map_eq_some_iff.mp atName
      exact (of_mem_areNamed named (List.mem_of_find?_eq_some entry)).2
    | _ => cases atName

end FileTree

namespace Search

variable {search : Search} {system : FileSystem}

mutual

theorem isProper_of_mem_below (tree : FileTree) (named : tree.isNamed = true) {way : List String} {path found : Path}
    (proper : path.IsProper) {walked : String} (member : found ∈ below search system way path walked tree) :
    found.IsProper := by
  cases tree with
  | folder entries =>
    rw [below] at member
    split at member
    case isFalse => cases member
    rcases List.mem_append.mp member with own | inner
    · obtain ⟨name, isName, rfl⟩ := List.mem_map.mp own
      obtain ⟨⟨_, tree⟩, entry, rfl⟩ := List.mem_map.mp (List.mem_of_mem_filter (List.mem_mergeSort.mp isName))
      exact proper.join (FileTree.of_mem_areNamed named entry).1
    · obtain ⟨⟨name, paths⟩, listed, member⟩ := List.mem_flatMap.mp inner
      exact isProper_of_mem_belowEntries entries named proper (List.mem_mergeSort.mp listed) member
  | _ => cases member

theorem isProper_of_mem_belowEntries (entries : List (String × FileTree)) (named : FileTree.areNamed entries = true)
    {way : List String} {path found : Path} {name : String} {paths : List Path} (proper : path.IsProper)
    {walked : String} (listed : (name, paths) ∈ belowEntries search system way path walked entries)
    (member : found ∈ paths) : found.IsProper := by
  cases entries with
  | nil => cases listed
  | cons first rest =>
    obtain ⟨other, tree⟩ := first
    simp only [FileTree.areNamed, Bool.and_eq_true] at named
    have others (listed : (name, paths) ∈ belowEntries search system way path walked rest) : found.IsProper :=
      isProper_of_mem_belowEntries rest named.2 proper listed member
    cases tree with
    | folder inner =>
      rw [belowEntries] at listed
      split at listed
      · exact others listed
      · rcases List.mem_cons.mp listed with same | listed
        · cases same
          exact isProper_of_mem_below (.folder inner) named.1.2 (proper.join named.1.1) member
        · exact others listed
    | file content => exact others (by simpa only [belowEntries] using listed)
    | link target => exact others (by simpa only [belowEntries] using listed)

end

theorem isProper_of_mem_candidates (named : system.root.isNamed = true) {path found : Path} {paths : List Path}
    (proper : path.IsProper) (given : search.candidates? system path = .ok (some paths))
    (member : found ∈ paths) : found.IsProper := by
  unfold candidates? at given
  obtain ⟨kind, -, given⟩ := bind_eq_ok_iff.mp given
  split at given
  · cases given
    rwa [List.mem_singleton.mp member]
  · split at given
    · rename_i way _
      obtain ⟨_, -, given⟩ := bind_eq_ok_iff.mp given
      cases given
      refine isProper_of_mem_below _ ?_ proper member
      cases atWay : system.root.at? way with
      | none => rfl
      | some tree => exact FileTree.isNamed_of_at? named atWay
    · cases given
      cases member
  · cases given

end Search

/-- Findings that a search can come to: every path stands for a place of its own. -/
structure Findings.IsSound (system : FileSystem) (found : Findings) : Prop where
  proper : ∀ path ∈ found.paths, path.IsProper
  places : found.places = found.paths.map system.realWay
  distinct : found.places.Nodup

namespace Search

variable {search : Search} {system : FileSystem} {found next : Findings}

theorem isSound_consider {path : Path} (proper : path.IsProper) (sound : found.IsSound system)
    (given : search.consider system found path = .ok next) : next.IsSound system := by
  unfold consider at given
  extract_lets name place at given
  split at given
  · cases given
    exact sound
  split at given
  · cases given
  · cases given
    exact ⟨sound.proper, sound.places, sound.distinct⟩
  split at given
  · cases given
  split at given
  · cases given
    exact sound
  · rename_i new
    cases given
    refine ⟨fun other member => ?_, ?_, ?_⟩
    · rcases List.mem_append.mp member with member | member
      · exact sound.proper other member
      · rwa [List.mem_singleton.mp member]
    · rw [List.map_append, ← sound.places]
      rfl
    · exact List.nodup_append.mpr ⟨sound.distinct, List.nodup_singleton _, fun known isKnown other isNew => by
        rw [List.mem_singleton.mp isNew]
        rintro rfl
        exact new (by simpa using isKnown)⟩

/-- A file whose ending is looked for and whose name is not excluded is found, unless it was found before. -/
theorem consider_of_new {path : Path}
    (ends : (search.endings.texts.any fun ending =>
      (lowercase ending).toList.isSuffixOf (lowercase path.name).toList) = true)
    (wanted : matchesSome search.excludedNames path.name = .ok false)
    (noCircle : system.isCircle (system.realWay path) = false) (new : system.realWay path ∉ found.places) :
    search.consider system found path
      = .ok { found with
          paths := found.paths ++ [path]
          places := found.places ++ [system.realWay path] } := by
  rw [consider, if_neg (by simp only [ends, Bool.not_true, Bool.false_eq_true, not_false_eq_true]), wanted]
  dsimp only
  rw [noCircle, if_neg Bool.false_ne_true, if_neg (by simpa using new)]

theorem isSound_scan (named : system.root.isNamed = true) {entry : String} (sound : found.IsSound system)
    (given : search.scan system found entry = .ok next) : next.IsSound system := by
  unfold scan at given
  split at given
  · cases given
  · cases given
    exact ⟨sound.proper, sound.places, sound.distinct⟩
  · rename_i candidates listed
    exact foldlM_keeps (fun path member _ _ sound given => isSound_consider
      (isProper_of_mem_candidates named (Path.isProper_ofText entry) listed member) sound given) sound given

theorem scan_of_candidates {entry : String} {candidates : List Path}
    (listed : search.candidates? system (Path.ofText entry) = .ok (some candidates)) :
    search.scan system found entry = candidates.foldlM (search.consider system) found := by
  unfold scan
  rw [listed]

theorem isSound_run (named : system.root.isNamed = true) (given : search.run system = .ok found) :
    found.IsSound system := by
  unfold run at given
  extract_lets goOn at given
  split at given
  · cases given
  obtain ⟨all, given, behind⟩ := bind_eq_ok_iff.mp given
  have atStart : ({} : Findings).IsSound system := ⟨List.forall_mem_nil _, rfl, List.nodup_nil⟩
  have sound : all.IsSound system :=
    foldlM_keeps (fun entry _ _ _ sound given => isSound_scan named sound given) atStart given
  split at behind <;> cases behind
  exact sound

/-- All files that are found have different names. -/
theorem nodup_texts_of_run (named : system.root.isNamed = true) (given : search.run system = .ok found) :
    (found.paths.map Path.text).Nodup := by
  have sound := isSound_run named given
  have distinct : found.paths.Nodup := by
    have places := sound.distinct
    rw [sound.places] at places
    exact places.of_map
  exact distinct.map_on fun first one second two =>
    (Path.text_inj (sound.proper first one) (sound.proper second two)).mp

end Search

end FormHarvest
