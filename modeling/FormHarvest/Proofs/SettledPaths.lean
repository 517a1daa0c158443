import FormHarvest.Proofs.FoundFiles
import Mathlib.Data.List.Basic

namespace FormHarvest

section Pieces

variable {mark : Char}

/-- What is put behind a text without a further mark belongs to its last piece. -/
theorem piecesAt_append_of_notMem {suffix : List Char} (absent : mark ∉ suffix) (text : List Char) :
    piecesAt mark (text ++ suffix)
      = (piecesAt mark text).dropLast
        ++ [(piecesAt mark text).getLast (piecesAt_ne_nil mark text) ++ suffix] := by
  induction text with
  | nil => simp [piecesAt_of_notMem absent, piecesAt]
  | cons c rest ih =>
    obtain ⟨first, others, pieces⟩ := List.exists_cons_of_ne_nil (piecesAt_ne_nil mark rest)
    by_cases atMark : c = mark
    · simp [piecesAt, atMark, ih, List.dropLast_cons_of_ne_nil, pieces]
    · cases others with
      | nil => simp [piecesAt, atMark, ih, pieces]
      | cons second more => simp [piecesAt, atMark, ih, pieces]

end Pieces

namespace Path

/-- The names along a way with one more name. A double dot takes the name before it away; at the start of
a relative way it stays, and above a root there is nothing. -/
def settle (absolute : Bool) (way : List String) (name : String) : List String :=
  if name ≠ ".." then way ++ [name]
  else
    match way.getLast? with
    | none => if absolute then [] else [".."]
    | some last => if last = ".." then way ++ [".."] else way.dropLast

/-- The path without its double dots, as far as they have a name before them. -/
def settled (path : Path) : Path := { path with parts := path.parts.foldl (settle path.isAbsolute) [] }

/-- A path lies inside a folder if its names come behind those of the folder once double dots are
settled. -/
def IsInside (path folder : Path) : Prop :=
  ∃ names, names ≠ [] ∧ ".." ∉ names ∧
    path.settled = { folder.settled with parts := folder.settled.parts ++ names }

/-- Whether names that start `depth` folders below a place lead above it on their way. -/
def climbs : Nat → List String → Bool
  | _, [] => false
  | 0, name :: rest => name = ".." || climbs 1 rest
  | depth + 1, name :: rest => if name = ".." then climbs depth rest else climbs (depth + 2) rest

section Settling

variable {absolute : Bool} {way names rest : List String} {name last : String}

theorem settle_of_ne (plain : name ≠ "..") : settle absolute way name = way ++ [name] := if_pos plain

theorem settle_dots_append (plain : last ≠ "..") : settle absolute (way ++ [last]) ".." = way := by
  simp [settle, plain]

theorem climbs_cons_of_ne (plain : name ≠ "..") (depth : Nat) :
    climbs depth (name :: rest) = climbs (depth + 1) rest := by
  cases depth <;> simp [climbs, plain]

/-- Names that never lead above their start leave the way before them as it is. -/
theorem foldl_settle_of_stays (absolute : Bool) (way : List String) {names : List String} (plain : ".." ∉ names)
    (stays : climbs names.length rest = false) :
    rest.foldl (settle absolute) (way ++ names) = way ++ rest.foldl (settle false) names ∧
      ".." ∉ rest.foldl (settle false) names := by
  induction rest generalizing names with
  | nil => exact ⟨rfl, plain⟩
  | cons name rest ih =>
    by_cases up : name = ".."
    · subst up
      rcases List.eq_nil_or_concat' names with rfl | ⟨front, last, rfl⟩
      · simp [climbs] at stays
      · simp only [List.mem_append, List.mem_singleton, not_or] at plain
        rw [List.length_append, List.length_singleton, climbs, if_pos rfl] at stays
        rw [List.foldl_cons, List.foldl_cons, ← List.append_assoc, settle_dots_append (Ne.symm plain.2),
          settle_dots_append (Ne.symm plain.2)]
        exact ih plain.1 stays
    · rw [climbs_cons_of_ne up] at stays
      rw [List.foldl_cons, List.foldl_cons, settle_of_ne up, settle_of_ne up, List.append_assoc]
      refine ih ?_ (by rwa [List.length_append])
      simp [plain, Ne.symm up]

theorem head?_settle (above : way.head? = some "..") (name : String) : (settle absolute way name).head? = some ".." := by
  obtain ⟨first, others, rfl⟩ := List.exists_cons_of_ne_nil (fun empty : way = [] => by simp [empty] at above)
  cases above
  by_cases up : name = ".."
  · rcases List.eq_nil_or_concat' others with rfl | ⟨front, last, rfl⟩
    · simp [settle, up]
    · by_cases dots : last = ".."
      · simp [settle, up, dots, List.getLast?_cons]
      · rw [up, ← List.cons_append, settle_dots_append dots]
        rfl
  · rw [settle_of_ne up]
    rfl

theorem head?_foldl_settle (above : way.head? = some "..") (rest : List String) :
    (rest.foldl (settle absolute) way).head? = some ".." := by
  induction rest generalizing way with
  | nil => exact above
  | cons name rest ih => exact ih (head?_settle above name)

/-- Names that lead above their start leave a double dot. -/
theorem mem_foldl_settle_of_climbs (plain : ".." ∉ names) (up : climbs names.length rest = true) :
    ".." ∈ rest.foldl (settle false) names := by
  induction rest generalizing names with
  | nil => cases names <;> cases up
  | cons name rest ih =>
    by_cases dots : name = ".."
    · subst dots
      rcases List.eq_nil_or_concat' names with rfl | ⟨front, last, rfl⟩
      · exact List.mem_of_mem_head? (head?_foldl_settle (show [".."].head? = some ".." from rfl) rest)
      · simp only [List.mem_append, List.mem_singleton, not_or] at plain
        rw [List.length_append, List.length_singleton, climbs, if_pos rfl] at up
        rw [List.foldl_cons, settle_dots_append (Ne.symm plain.2)]
        exact ih plain.1 up
    · rw [climbs_cons_of_ne dots] at up
      rw [List.foldl_cons, settle_of_ne dots]
      refine ih ?_ (by rwa [List.length_append])
      simp [plain, Ne.symm dots]

end Settling

section Inside

variable {folders : List String} {root name : String}

/-- A relative path that never leads above its start comes behind the folder that it is joined to. -/
theorem settled_join (folder : Path) (plain : name ≠ "..") (stays : climbs 0 folders = false) :
    (folder.join ⟨"", folders ++ [name]⟩).settled
      = { folder.settled with parts := folder.settled.parts ++ (folders.foldl (settle false) [] ++ [name]) } := by
  obtain ⟨behind, -⟩ := foldl_settle_of_stays folder.isAbsolute folder.settled.parts List.not_mem_nil stays
  rw [List.append_nil] at behind
  have parts : (folder.parts ++ (folders ++ [name])).foldl (settle folder.isAbsolute) []
      = folder.settled.parts ++ (folders.foldl (settle false) [] ++ [name]) := by
    rw [← List.append_assoc, List.foldl_append, List.foldl_append, ← List.append_assoc, ← behind]
    exact settle_of_ne plain
  exact congrArg (Path.mk folder.root) parts

/-- A path lies inside every folder that it is joined to exactly if it is relative and never leads above its
start. -/
theorem forall_isInside_join_iff (plain : name ≠ "..") :
    (∀ folder : Path, (folder.join ⟨root, folders ++ [name]⟩).IsInside folder) ↔
      root = "" ∧ climbs 0 folders = false := by
  constructor
  · intro inside
    obtain ⟨names, -, noDots, same⟩ := inside {}
    have atRoot : root = "" := by
      by_contra absolute
      rw [join, if_pos (by simp [isAbsolute, absolute])] at same
      exact absolute (congrArg Path.root same)
    subst atRoot
    have parts : (folders ++ [name]).foldl (settle false) [] = names := congrArg Path.parts same
    rw [List.foldl_append, List.foldl_cons, List.foldl_nil, settle_of_ne plain] at parts
    refine ⟨rfl, Bool.eq_false_iff.mpr fun up => noDots ?_⟩
    rw [← parts]
    exact List.mem_append_left _ (mem_foldl_settle_of_climbs List.not_mem_nil up)
  · rintro ⟨rfl, stays⟩ folder
    refine ⟨_, by simp, ?_, settled_join folder plain stays⟩
    have noDots := (foldl_settle_of_stays false [] List.not_mem_nil stays).2
    simp [noDots, Ne.symm plain]

end Inside

end Path

end FormHarvest
