import FormHarvest.Proofs.FoundFiles
import Mathlib.Data.Nat.Find

namespace FormHarvest

namespace FileTree

/-- Where the way of a link begins that stands in a folder. -/
def linkStart (target : String) (folder : List String) : List String :=
  if (Path.ofText target).isAbsolute then [] else folder

/-- Names lead from a place to another one. A link on the way is followed by its own names to their end, and links
are nested at most `depth` deep. What does not exist follows by name. -/
inductive Leads (root : FileTree) : (depth : Nat) → (here names place : List String) → Prop
  | here {depth : Nat} {here : List String} : Leads root depth here [] here
  | up {depth : Nat} {here rest place : List String} (further : Leads root depth here.dropLast rest place) :
    Leads root depth here (".." :: rest) place
  | along {depth : Nat} {name : String} {here rest place : List String} (down : name ≠ "..")
    (noLink : ∀ target, root.at? (here ++ [name]) ≠ some (.link target))
    (further : Leads root depth (here ++ [name]) rest place) : Leads root depth here (name :: rest) place
  | follow {depth : Nat} {name target : String} {here rest middle place : List String} (down : name ≠ "..")
    (link : root.at? (here ++ [name]) = some (.link target))
    (inner : Leads root depth (linkStart target here) (Path.ofText target).parts middle)
    (further : Leads root (depth + 1) middle rest place) : Leads root (depth + 1) here (name :: rest) place

namespace Leads

variable {root : FileTree} {depth : Nat} {here names place : List String}

theorem mono (leads : Leads root depth here names place) {more : Nat} (deeper : depth ≤ more) :
    Leads root more here names place := by
  induction leads generalizing more with
  | here => exact .here
  | up _ ih => exact .up (ih deeper)
  | along down noLink _ ih => exact .along down noLink (ih deeper)
  | follow down link _ _ inner further =>
    obtain ⟨more, rfl⟩ := Nat.exists_eq_add_of_le' (Nat.lt_of_lt_of_le (Nat.succ_pos _) deeper)
    exact .follow down link (inner (Nat.le_of_succ_le_succ deeper)) (further deeper)

/-- Names lead to one place. -/
theorem unique (leads : Leads root depth here names place) {other : Nat} {place' : List String}
    (leads' : Leads root other here names place') : place = place' := by
  induction leads generalizing other place' with
  | here => cases leads'; rfl
  | up _ ih =>
    cases leads' with
    | up further => exact ih further
    | along down => exact absurd rfl down
    | follow down => exact absurd rfl down
  | along down noLink _ ih =>
    cases leads' with
    | up => exact absurd rfl down
    | along _ _ further => exact ih further
    | follow _ link => exact absurd link (noLink _)
  | follow down link _ _ ihInner ihFurther =>
    cases leads' with
    | up => exact absurd rfl down
    | along _ noLink => exact absurd link (noLink _)
    | follow _ link' inner' further' =>
      obtain rfl : _ = _ := by simpa using link.symm.trans link'
      obtain rfl := ihInner inner'
      exact ihFurther further'

theorem append {more : List String} {far : List String} (leads : Leads root depth here names place)
    (further : Leads root depth place more far) : Leads root depth here (names ++ more) far := by
  induction leads with
  | here => exact further
  | up _ ih => exact .up (ih further)
  | along down noLink _ ih => exact .along down noLink (ih further)
  | follow down link inner _ _ ih => exact .follow down link inner (ih further)

theorem exists_of_append {more : List String} {far : List String}
    (leads : Leads root depth here (names ++ more) far) :
    ∃ place, Leads root depth here names place ∧ Leads root depth place more far := by
  induction names generalizing here with
  | nil => exact ⟨here, .here, leads⟩
  | cons name names ih =>
    cases leads with
    | up further =>
      obtain ⟨place, first, second⟩ := ih further
      exact ⟨place, .up first, second⟩
    | along down noLink further =>
      obtain ⟨place, first, second⟩ := ih further
      exact ⟨place, .along down noLink first, second⟩
    | follow down link inner further =>
      obtain ⟨place, first, second⟩ := ih further
      exact ⟨place, .follow down link inner first, second⟩

end Leads

/-- The names of a link at a place lead somewhere, through links that are nested at most `depth` deep. -/
def LinkEnds (root : FileTree) (depth : Nat) (link : List String) : Prop :=
  ∃ target middle, root.at? link = some (.link target) ∧
    Leads root depth (linkStart target link.dropLast) (Path.ofText target).parts middle

/-- No link leads in a circle: the way of each comes to its end, through links nested at most `depth` deep. -/
def EndsLinks (root : FileTree) (depth : Nat) : Prop :=
  ∀ link target, root.at? link = some (.link target) → root.LinkEnds depth link

/-- Where no link leads in a circle, all names lead somewhere. -/
theorem EndsLinks.exists_leads {root : FileTree} {depth : Nat} (ends : root.EndsLinks depth)
    (here names : List String) : ∃ place, root.Leads (depth + 1) here names place := by
  induction names generalizing here with
  | nil => exact ⟨here, .here⟩
  | cons name rest ih =>
    by_cases up : name = ".."
    · subst up
      obtain ⟨place, further⟩ := ih here.dropLast
      exact ⟨place, .up further⟩
    by_cases linked : ∃ target, root.at? (here ++ [name]) = some (.link target)
    · obtain ⟨target, link⟩ := linked
      obtain ⟨target', middle, link', inner⟩ := ends _ target link
      obtain rfl : target' = target := by simpa using link'.symm.trans link
      rw [List.dropLast_concat] at inner
      obtain ⟨place, further⟩ := ih middle
      exact ⟨place, .follow up link inner further⟩
    · obtain ⟨place, further⟩ := ih (here ++ [name])
      exact ⟨place, .along up (not_exists.mp linked) further⟩

mutual

/-- The ways to the links in a tree. -/
def links (way : List String) : FileTree → List (List String)
  | file _ => []
  | link _ => [way]
  | folder entries => linksOfEntries way entries

/-- The ways to the links in the entries of a folder. -/
def linksOfEntries (way : List String) : List (String × FileTree) → List (List String)
  | [] => []
  | (name, tree) :: rest => links (way ++ [name]) tree ++ linksOfEntries way rest

end

theorem mem_linksOfEntries {entries : List (String × FileTree)} {name : String} {tree : FileTree}
    {way place : List String} (entry : (name, tree) ∈ entries) (member : place ∈ links (way ++ [name]) tree) :
    place ∈ linksOfEntries way entries := by
  induction entries with
  | nil => cases entry
  | cons first rest ih =>
    rw [linksOfEntries, List.mem_append]
    rcases List.mem_cons.mp entry with rfl | entry
    · exact .inl member
    · exact .inr (ih entry)

theorem mem_links_of_at? {tree : FileTree} {way names : List String} {target : String}
    (there : tree.at? names = some (.link target)) : way ++ names ∈ tree.links way := by
  induction names generalizing tree way with
  | nil =>
    cases there
    rw [List.append_nil]
    exact List.mem_singleton_self way
  | cons name rest ih =>
    obtain ⟨inner, atName, behind⟩ := Option.bind_eq_some_iff.mp there
    cases tree with
    | folder entries =>
      obtain ⟨⟨other, _⟩, entry, rfl⟩ := Option.map_eq_some_iff.mp atName
      obtain rfl : other = name := by simpa using List.find?_some entry
      rw [List.append_cons]
      exact mem_linksOfEntries (List.mem_of_find?_eq_some entry) (ih behind)
    | _ => cases atName

theorem endsLinks_of_links {root : FileTree} {depth : Nat} (ends : ∀ link ∈ root.links [], root.LinkEnds depth link) :
    root.EndsLinks depth :=
  fun link target there => by
    have member : [] ++ link ∈ root.links [] := mem_links_of_at? there
    exact ends link member

end FileTree

namespace FileSystem

open FileTree

/-- What a path really names is found by following its links, since a link never comes up again before its own
way is at its end. -/
theorem realWayFrom_of_leads {root : FileTree} {depth links : Nat} {followed : List (List String)}
    {here names place : List String} (leads : Leads root depth here names place) (within : depth ≤ links)
    (fresh : ∀ link ∈ followed, ∀ less < depth, ¬LinkEnds root less link) :
    realWayFrom root links followed here names = (place, true) := by
  -- on the way of a link the depth goes down, behind it the names do
  induction depth using Nat.strong_induction_on generalizing links followed here names place with
  | _ depth shallower =>
  induction names generalizing here place with
  | nil =>
    cases leads
    rw [realWayFrom]
  | cons name rest ih =>
    cases leads with
    | up further =>
      rw [realWayFrom, if_pos rfl]
      exact ih further
    | along down noLink further =>
      rw [realWayFrom, if_neg down]
      dsimp only
      split
      · rename_i target atName
        exact absurd atName (noLink target)
      · exact ih further
    | @follow depth _ target _ _ middle _ down link inner further =>
      obtain ⟨links, rfl⟩ := Nat.exists_eq_add_of_le' (Nat.lt_of_lt_of_le (Nat.succ_pos _) within)
      have ends : LinkEnds root depth (here ++ [name]) := ⟨target, middle, link, by rwa [List.dropLast_concat]⟩
      have new : ¬followed.contains (here ++ [name]) = true := fun known =>
        fresh _ (List.contains_iff_mem.mp known) depth (Nat.lt_succ_self _) ends
      -- the link is followed as deep as it needs, so that it does not come up on its own way
      obtain ⟨least, atLeast, minimal⟩ : ∃ least, LinkEnds root least (here ++ [name]) ∧
          ∀ less < least, ¬LinkEnds root less (here ++ [name]) := by
        classical
        have some_ : ∃ depth, LinkEnds root depth (here ++ [name]) := ⟨depth, ends⟩
        exact ⟨Nat.find some_, Nat.find_spec some_, fun _ => Nat.find_min some_⟩
      have small : least ≤ depth := Nat.le_of_not_lt fun lower => minimal depth lower ends
      obtain ⟨target', middle', link', inner'⟩ := atLeast
      obtain rfl : target = target' := by simpa using link.symm.trans link'
      rw [List.dropLast_concat] at inner'
      obtain rfl := inner.unique inner'
      have first : realWayFrom root links ((here ++ [name]) :: followed) (linkStart target here)
          (Path.ofText target).parts = (middle, true) := by
        refine shallower least (Nat.lt_succ_of_le small) inner' (by omega) fun other member less lower => ?_
        rcases List.mem_cons.mp member with rfl | member
        · exact minimal less lower
        · exact fresh other member less (by omega)
      rw [realWayFrom, if_neg down]
      simp only [link, if_neg new]
      simp only [linkStart] at first
      rw [first]
      exact ih further

variable {system : FileSystem} {path : Path} {place : List String}

/-- Where the way of a path begins. -/
def startOf (system : FileSystem) (path : Path) : List String := if path.isAbsolute then [] else system.current

/-- A path leads to a place, links followed. -/
def LeadsTo (system : FileSystem) (path : Path) (place : List String) : Prop :=
  system.root.Leads maxNestedLinks (system.startOf path) path.parts place

theorem realWay_of_leadsTo (leads : system.LeadsTo path place) : system.realWay path = place :=
  congrArg Prod.fst (realWayFrom_of_leads leads (Nat.le_refl _) (List.forall_mem_nil _))

theorem leadsTo_realWay (ends : system.root.EndsLinks (maxNestedLinks - 1)) (path : Path) :
    system.LeadsTo path (system.realWay path) := by
  obtain ⟨place, leads⟩ := ends.exists_leads (system.startOf path) path.parts
  have leads : system.LeadsTo path place := leads
  rwa [realWay_of_leadsTo leads]

end FileSystem

namespace FileTree

/-- A way of names alone that leads through no link. -/
structure IsPlainWay (root : FileTree) (way : List String) : Prop where
  names : ∀ name ∈ way, name ≠ "" ∧ name ≠ "." ∧ name ≠ ".."
  noLink : ∀ front, front <+: way → ∀ target, root.at? front ≠ some (.link target)

variable {root : FileTree}

theorem IsPlainWay.of_prefix {front way : List String} (plain : root.IsPlainWay way) (inWay : front <+: way) :
    root.IsPlainWay front :=
  ⟨fun name member => plain.names name (inWay.subset member),
    fun other inFront => plain.noLink other (inFront.trans inWay)⟩

/-- Names of real folders lead down through them. -/
theorem IsPlainWay.leads {depth : Nat} {here names : List String} (plain : root.IsPlainWay (here ++ names)) :
    root.Leads depth here names (here ++ names) := by
  induction names generalizing here with
  | nil =>
    rw [List.append_nil]
    exact .here
  | cons name rest ih =>
    rw [List.append_cons] at plain ⊢
    exact .along (plain.names name (by simp)).2.2 (plain.noLink _ (List.prefix_append _ _)) (ih plain)

/-- Names lead to plain ways. -/
theorem Leads.isPlainWay {depth : Nat} {here names place : List String} (leads : root.Leads depth here names place)
    (parts : ∀ name ∈ names, Path.isPart name = true) (plain : root.IsPlainWay here) : root.IsPlainWay place := by
  induction leads with
  | here => exact plain
  | @up _ here _ _ _ ih =>
    exact ih (List.forall_mem_cons.mp parts).2 (plain.of_prefix (List.dropLast_prefix here))
  | along down noLink _ ih =>
    obtain ⟨isPart, others⟩ := List.forall_mem_cons.mp parts
    refine ih others ⟨fun other member => ?_, fun front inWay => ?_⟩
    · rcases List.mem_append.mp member with member | member
      · exact plain.names other member
      · obtain rfl := List.mem_singleton.mp member
        simp only [Path.isPart, Bool.and_eq_true, bne_iff_ne] at isPart
        exact ⟨isPart.1.1, isPart.1.2, down⟩
    · rcases List.prefix_concat_iff.mp inWay with rfl | inHere
      · exact noLink
      · exact plain.noLink front inHere
  | @follow _ _ target here _ _ _ down link _ _ ihInner ihFurther =>
    refine ihFurther (List.forall_mem_cons.mp parts).2 (ihInner (Path.isProper_ofText target).parts ?_)
    unfold linkStart
    split
    · exact plain.of_prefix List.nil_prefix
    · exact plain

end FileTree

namespace FileSystem

open FileTree

variable {root : FileTree}

theorem wayFrom_ne_tooManyLinks {links : Nat} {here way : List String} (plain : root.IsPlainWay (here ++ way)) :
    wayFrom root .target links here way ≠ .error .tooManyLinks := by
  induction way generalizing here with
  | nil => simp [wayFrom]
  | cons name rest ih =>
    obtain ⟨filled, noDot, down⟩ := plain.names name (by simp)
    have further : wayFrom root .target links (here ++ [name]) rest ≠ .error .tooManyLinks :=
      ih (by rwa [List.append_assoc])
    rw [wayFrom, if_neg down, if_neg (by simp [filled, noDot]), if_neg (by simp)]
    split
    · simp
    · dsimp only
      split
      · split <;> simp
      · exact further
      · split <;> simp
      · rename_i target link
        exact absurd link (plain.noLink _ ⟨rest, by simp⟩ target)

/-- No circle is left at the place that a path really names. -/
theorem isCircle_realWay {system : FileSystem} {path : Path} (ends : system.root.EndsLinks (maxNestedLinks - 1))
    (plain : system.root.IsPlainWay system.current) (proper : path.IsProper) :
    system.isCircle (system.realWay path) = false := by
  have start : system.root.IsPlainWay (system.startOf path) := by
    unfold startOf
    split
    · exact plain.of_prefix List.nil_prefix
    · exact plain
  have atEnd := (leadsTo_realWay ends path).isPlainWay proper.parts start
  unfold isCircle
  split
  · rename_i circle
    have atEnd : system.root.IsPlainWay ([] ++ system.realWay path) := atEnd
    exact absurd circle (wayFrom_ne_tooManyLinks atEnd)
  · rfl

/-- Whether a name leads anywhere, as an empty one and a single dot do not. -/
def leadsOn (name : String) : Bool := name != "" && name != "."

theorem leadsOn_of_filled {name : String} (filled : ¬(name = "." || name = "") = true) : leadsOn name = true := by
  simpa [leadsOn, and_comm] using filled

theorem leadsOn_of_isPart {name : String} (isPart : Path.isPart name = true) : leadsOn name = true := by
  simp only [Path.isPart, Bool.and_eq_true] at isPart
  simp only [leadsOn, isPart.1, Bool.and_self]

theorem filter_leadsOn {path : Path} (proper : path.IsProper) : path.parts.filter leadsOn = path.parts :=
  List.filter_eq_self.mpr fun name member => leadsOn_of_isPart (proper.parts name member)

/-- The names on the way of a link, without those that only ask for a folder. -/
theorem filter_namesOfLink (target : String) : (namesOfLink target).filter leadsOn = (Path.ofText target).parts := by
  rw [namesOfLink, List.filter_append, filter_leadsOn (Path.isProper_ofText target)]
  split <;> simp [leadsOn]

/-- The way that the system finds is the one that the names lead along. -/
theorem leads_of_wayFrom {links : Nat} {here names way : List String}
    (found : wayFrom root .target links here names = .ok way) : root.Leads links here (names.filter leadsOn) way := by
  generalize ending_eq : WayEnd.target = ending at found
  fun_induction wayFrom root ending links here names with
  | case1 =>
    cases found
    exact .here
  | case2 links here rest ih => exact .up (ih found)
  | case3 links here name rest down silent ih =>
    rw [List.filter_cons_of_neg (by simpa [leadsOn, or_comm, imp_iff_not_or] using silent)]
    exact ih found
  | case4 => cases found
  | case5 => cases found
  | case6 links here name rest down filled _ _ there atName atEnd =>
    obtain rfl : here ++ [name] = way := Except.ok.inj found
    obtain rfl := List.isEmpty_iff.mp atEnd
    rw [List.filter_cons_of_pos (leadsOn_of_filled filled)]
    exact .along down (fun target link => by rw [atName] at link; cases link) .here
  | case7 => cases found
  | case8 links here name rest down filled _ _ there entries atName ih =>
    rw [List.filter_cons_of_pos (leadsOn_of_filled filled)]
    exact .along down (fun target link => by rw [atName] at link; cases link) (ih found)
  | case9 links here name rest down filled _ _ there content atName atEnd =>
    obtain rfl : here ++ [name] = way := Except.ok.inj found
    obtain rfl := List.isEmpty_iff.mp atEnd
    rw [List.filter_cons_of_pos (leadsOn_of_filled filled)]
    exact .along down (fun target link => by rw [atName] at link; cases link) .here
  | case10 => cases found
  | case11 links here name rest _ _ _ _ _ _ _ atEnd =>
    subst ending_eq
    simp at atEnd
  | case12 => cases found
  | case13 here name rest down filled _ _ there target link _ links start ih =>
    have whole := ih found
    rw [List.filter_append, filter_namesOfLink] at whole
    obtain ⟨middle, inner, further⟩ := whole.exists_of_append
    rw [List.filter_cons_of_pos (leadsOn_of_filled filled)]
    exact .follow down link inner (further.mono (Nat.le_succ links))

/-- A path leads to where the system finds what it names. -/
theorem leadsTo_of_wayTo {system : FileSystem} {path : Path} {way : List String} (proper : path.IsProper)
    (found : system.wayTo .target path = .ok way) : system.LeadsTo path way := by
  unfold wayTo at found
  dsimp only at found
  split at found
  · cases found
  split at found
  · cases found
  have found : (wayFrom system.root .target maxLinks (system.startOf path) path.parts).mapError
      (FileFault.refused · path.text none) = .ok way := found
  cases there : wayFrom system.root .target maxLinks (system.startOf path) path.parts with
  | error cause =>
    rw [there] at found
    cases found
  | ok place =>
    rw [there] at found
    obtain rfl : place = way := Except.ok.inj found
    have leads := leads_of_wayFrom there
    rw [filter_leadsOn proper] at leads
    exact leads.mono (by decide)

end FileSystem

end FormHarvest
