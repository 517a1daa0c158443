import FormHarvest.Proofs.SettledPaths
import FormHarvest.Proofs.SourceRuns
import FormHarvest.Proofs.WrittenGroups
import FormHarvest.Run.Basic
import Mathlib

namespace FormHarvest

theorem append_ne_of_length_lt {ending short : String} (longer : short.length < ending.length) (text : String) :
    text ++ ending ≠ short := by
  rintro rfl
  rw [String.length_append] at longer
  omega

/-- What stands in the name of a file before its ending. -/
def fileStem (domain locale : String) : String := domain ++ "." ++ locale

/-- Two domains and languages share a name only where the one domain goes on with what the other language
starts with, up to a dot. -/
theorem fileStem_eq_iff {domain other locale language : String} :
    fileStem domain locale = fileStem other language ↔
      (domain = other ∧ locale = language)
        ∨ (∃ middle, other = fileStem domain middle ∧ locale = fileStem middle language)
        ∨ ∃ middle, domain = fileStem other middle ∧ language = fileStem middle locale := by
  simp only [fileStem, ← String.toList_inj, String.toList_append, show ".".toList = ['.'] from rfl]
  constructor
  · intro same
    simp only [List.append_assoc] at same
    rcases List.append_eq_append_iff.mp same with ⟨behind, isOther, rest⟩ | ⟨behind, isDomain, rest⟩
    · cases behind with
      | nil =>
        rw [List.append_nil] at isOther
        exact .inl ⟨isOther.symm, List.append_cancel_left rest⟩
      | cons dot middle =>
        simp only [List.cons_append, List.nil_append, List.cons.injEq] at rest
        obtain ⟨rfl, rest⟩ := rest
        exact .inr (.inl ⟨String.ofList middle, by simp [isOther], by simp [rest]⟩)
    · cases behind with
      | nil =>
        rw [List.append_nil] at isDomain
        exact .inl ⟨isDomain, (List.append_cancel_left rest).symm⟩
      | cons dot middle =>
        simp only [List.cons_append, List.nil_append, List.cons.injEq] at rest
        obtain ⟨rfl, rest⟩ := rest
        exact .inr (.inr ⟨String.ofList middle, by simp [isDomain], by simp [rest]⟩)
  · rintro (⟨one, two⟩ | ⟨middle, one, two⟩ | ⟨middle, one, two⟩) <;> simp [one, two]

namespace Path

/-- The folders that a text names before its last slash. -/
def foldersOf (stem : String) : List String :=
  ((piecesAt '/' stem.toList).dropLast.map String.ofList).filter fun part => part != "" && part != "."

/-- What a text holds behind its last slash. -/
def lastNameOf (stem : String) : String :=
  String.ofList ((piecesAt '/' stem.toList).getLast (piecesAt_ne_nil '/' stem.toList))

/-- Whether a file of this name stays below the folder in which it is put. -/
def staysBelow (stem : String) : Bool := stem.toList.head? != some '/' && !climbs 0 (foldersOf stem)

/-- Whether files of these names are the same, once the folders on the way to them are settled. -/
def isSameFile (first second : String) : Bool :=
  (foldersOf first).foldl (settle false) [] == (foldersOf second).foldl (settle false) []
    && lastNameOf first == lastNameOf second

theorem rootOf_eq_empty_iff (text : List Char) : rootOf text = "" ↔ text.head? ≠ some '/' := by
  cases text with
  | nil => simp [rootOf]
  | cons c rest =>
    by_cases slash : c = '/'
    · subst slash
      unfold rootOf
      split <;> simp_all
    · rw [rootOf] <;> simp [slash]

/-- A text with an ending names a path whose last name has this ending. -/
theorem ofText_append {ending : String} (noSlash : '/' ∉ ending.toList) (long : 1 < ending.length) (stem : String) :
    ofText (stem ++ ending)
      = ⟨rootOf (stem ++ ending).toList, foldersOf stem ++ [lastNameOf stem ++ ending]⟩ := by
  have some : "".length < ending.length := Nat.lt_of_succ_lt long
  have notEmpty : lastNameOf stem ++ ending ≠ "" := append_ne_of_length_lt some _
  have notDot : lastNameOf stem ++ ending ≠ "." := append_ne_of_length_lt (show ".".length < ending.length from long) _
  have lastPiece : String.ofList ((piecesAt '/' stem.toList).getLast (piecesAt_ne_nil '/' stem.toList) ++ ending.toList)
      = lastNameOf stem ++ ending := by
    rw [String.ofList_append, String.ofList_toList, lastNameOf]
  refine congrArg (Path.mk _) ?_
  rw [String.toList_append, piecesAt_append_of_notMem noSlash, List.map_append, List.map_singleton, lastPiece,
    List.filter_append, foldersOf]
  simp [notEmpty, notDot]

section SameFile

variable {stem : String}

theorem foldersOf_of_noSlash (noSlash : '/' ∉ stem.toList) : foldersOf stem = [] := by
  simp [foldersOf, piecesAt_of_notMem noSlash]

theorem lastNameOf_of_noSlash (noSlash : '/' ∉ stem.toList) : lastNameOf stem = stem := by
  simp [lastNameOf, piecesAt_of_notMem noSlash]

theorem staysBelow_of_noSlash (noSlash : '/' ∉ stem.toList) : staysBelow stem = true := by
  have relative : stem.toList.head? ≠ some '/' := fun slash => noSlash (List.mem_of_mem_head? slash)
  simp [staysBelow, foldersOf_of_noSlash noSlash, climbs, relative]

theorem isSameFile_iff_of_noSlash {first second : String} (one : '/' ∉ first.toList) (two : '/' ∉ second.toList) :
    isSameFile first second = true ↔ first = second := by
  simp [isSameFile, foldersOf_of_noSlash, lastNameOf_of_noSlash, one, two]

end SameFile

end Path

namespace TranslationWriter

/-- The ending of the files that are written. -/
def ending (writer : TranslationWriter) : String := "." ++ writer.format.name

/-- The places of the files for a catalogue in several languages, in the order in which they are written. -/
def writtenPaths (writer : TranslationWriter) (folder : Path) (catalogue : Catalogue) (locales : List String) :
    List Path :=
  locales.flatMap fun locale => (writer.files catalogue locale).map fun file => folder.join (Path.ofText file.1)

/-- The domains of a catalogue and the languages, in the order in which their files are written. -/
def pairs (catalogue : Catalogue) (locales : List String) : List (String × String) :=
  locales.flatMap fun locale => (groups catalogue).map fun group => (group.1, locale)

theorem mem_pairs {catalogue : Catalogue} {locales : List String} {domain locale : String} :
    (domain, locale) ∈ pairs catalogue locales ↔
      domain ∈ catalogue.messages.map Message.outputDomain ∧ locale ∈ locales := by
  simp only [pairs, List.mem_flatMap, List.mem_map, Prod.mk.injEq]
  constructor
  · rintro ⟨_, isLocale, ⟨_, _⟩, listed, rfl, rfl⟩
    exact ⟨List.mem_map.mp (mem_groups.mp listed).1, isLocale⟩
  · rintro ⟨isDomain, isLocale⟩
    exact ⟨locale, isLocale, (domain, _), mem_groups.mpr ⟨List.mem_map.mpr isDomain, rfl⟩, rfl, rfl⟩

theorem nodup_pairs (catalogue : Catalogue) {locales : List String} (distinct : locales.Nodup) :
    (pairs catalogue locales).Nodup := by
  rw [pairs, List.nodup_flatMap]
  constructor
  · intro locale _
    have names := nodup_names_groups catalogue
    have paired : ((groups catalogue).map fun group => (group.1, locale))
        = ((groups catalogue).map Prod.fst).map fun domain => (domain, locale) := by
      rw [List.map_map]
      rfl
    rw [paired]
    exact names.map fun _ _ same => congrArg Prod.fst same
  · refine distinct.imp fun {first second} differ pair inFirst inSecond => differ ?_
    obtain ⟨_, -, rfl⟩ := List.mem_map.mp inFirst
    obtain ⟨_, -, same⟩ := List.mem_map.mp inSecond
    exact (congrArg Prod.snd same).symm

/-- The place of the file for a domain and a language. -/
def pathOf (writer : TranslationWriter) (folder : Path) (pair : String × String) : Path :=
  folder.join (Path.ofText (fileStem pair.1 pair.2 ++ writer.ending))

theorem writtenPaths_eq (writer : TranslationWriter) (folder : Path) (catalogue : Catalogue) (locales : List String) :
    writer.writtenPaths folder catalogue locales = (pairs catalogue locales).map (writer.pathOf folder) := by
  have name (domain locale : String) : writer.fileName domain locale = fileStem domain locale ++ writer.ending := by
    simp only [fileName, fileStem, ending, String.append_assoc]
    rfl
  simp only [writtenPaths, files, pairs, List.map_flatMap, List.map_map, Function.comp_def, pathOf, name]

section Paths

variable {writer : TranslationWriter} {pair other : String × String}

theorem pathOf_eq (writer : TranslationWriter) (folder : Path) (pair : String × String) :
    writer.pathOf folder pair = folder.join ⟨Path.rootOf (fileStem pair.1 pair.2 ++ writer.ending).toList,
      Path.foldersOf (fileStem pair.1 pair.2) ++ [Path.lastNameOf (fileStem pair.1 pair.2) ++ writer.ending]⟩ := by
  have noSlash : '/' ∉ writer.ending.toList := by
    rw [ending]
    cases writer.format <;> decide
  have long : 1 < writer.ending.length := by
    rw [ending]
    cases writer.format <;> decide
  rw [pathOf, Path.ofText_append noSlash long]

theorem lastName_ne_dots (writer : TranslationWriter) (stem : String) : Path.lastNameOf stem ++ writer.ending ≠ ".." := by
  refine append_ne_of_length_lt ?_ _
  rw [ending]
  cases writer.format <;> decide

/-- Only a name that starts with a slash is taken from the root. -/
theorem rootOf_name_eq_empty_iff (writer : TranslationWriter) (pair : String × String) :
    Path.rootOf (fileStem pair.1 pair.2 ++ writer.ending).toList = "" ↔
      (fileStem pair.1 pair.2).toList.head? ≠ some '/' := by
  have some : (fileStem pair.1 pair.2).toList ≠ [] := by simp [fileStem]
  rw [Path.rootOf_eq_empty_iff, String.toList_append, List.head?_append_of_ne_nil _ some]

theorem forall_isInside_pathOf_iff :
    (∀ folder, (writer.pathOf folder pair).IsInside folder) ↔ Path.staysBelow (fileStem pair.1 pair.2) = true := by
  simp only [pathOf_eq, Path.forall_isInside_join_iff (writer.lastName_ne_dots _), rootOf_name_eq_empty_iff,
    Path.staysBelow, Bool.and_eq_true, bne_iff_ne, Bool.not_eq_true']

theorem settled_pathOf (stays : Path.staysBelow (fileStem pair.1 pair.2) = true) (folder : Path) :
    (writer.pathOf folder pair).settled
      = { folder.settled with
          parts := folder.settled.parts ++
            ((Path.foldersOf (fileStem pair.1 pair.2)).foldl (Path.settle false) []
              ++ [Path.lastNameOf (fileStem pair.1 pair.2) ++ writer.ending]) } := by
  rw [Path.staysBelow, Bool.and_eq_true, bne_iff_ne, Bool.not_eq_true'] at stays
  rw [pathOf_eq, (rootOf_name_eq_empty_iff writer pair).mpr stays.1,
    Path.settled_join folder (writer.lastName_ne_dots _) stays.2]

theorem settled_pathOf_eq_iff (stays : Path.staysBelow (fileStem pair.1 pair.2) = true)
    (otherStays : Path.staysBelow (fileStem other.1 other.2) = true) (folder : Path) :
    (writer.pathOf folder pair).settled = (writer.pathOf folder other).settled ↔
      Path.isSameFile (fileStem pair.1 pair.2) (fileStem other.1 other.2) = true := by
  rw [settled_pathOf stays, settled_pathOf otherStays, Path.mk.injEq, List.append_cancel_left_eq, Path.isSameFile,
    Bool.and_eq_true, beq_iff_eq, beq_iff_eq]
  constructor
  · rintro ⟨-, same⟩
    obtain ⟨folders, names⟩ := List.append_inj' same rfl
    exact ⟨folders, (String.append_left_inj _).mp (List.singleton_inj.mp names)⟩
  · rintro ⟨folders, name⟩
    rw [folders, name]
    exact ⟨rfl, rfl⟩

end Paths

/-- Every domain and language has a file of its own, and it lies inside the folder into which the files are
written, whatever that folder is. -/
def SeparatesFiles (writer : TranslationWriter) (catalogue : Catalogue) (locales : List String) : Prop :=
  ∀ folder, ((writer.writtenPaths folder catalogue locales).map Path.settled).Nodup ∧
    ∀ path ∈ writer.writtenPaths folder catalogue locales, path.IsInside folder

theorem separatesFiles_iff_stems (writer : TranslationWriter) (catalogue : Catalogue) {locales : List String}
    (distinct : locales.Nodup) :
    writer.SeparatesFiles catalogue locales ↔
      (∀ pair ∈ pairs catalogue locales, Path.staysBelow (fileStem pair.1 pair.2) = true) ∧
        ∀ pair ∈ pairs catalogue locales, ∀ other ∈ pairs catalogue locales,
          Path.isSameFile (fileStem pair.1 pair.2) (fileStem other.1 other.2) = true → pair = other := by
  simp only [SeparatesFiles, writtenPaths_eq, List.map_map, List.forall_mem_map]
  constructor
  · intro separate
    have below : ∀ pair ∈ pairs catalogue locales, Path.staysBelow (fileStem pair.1 pair.2) = true :=
      fun pair member => forall_isInside_pathOf_iff.mp fun folder => (separate folder).2 pair member
    refine ⟨below, fun pair member other otherMember same => ?_⟩
    exact List.inj_on_of_nodup_map (separate {}).1 member otherMember
      ((settled_pathOf_eq_iff (below pair member) (below other otherMember) {}).mpr same)
  · rintro ⟨below, apart⟩ folder
    refine ⟨?_, fun pair member => forall_isInside_pathOf_iff.mpr (below pair member) folder⟩
    rw [List.nodup_map_iff_inj_on (nodup_pairs catalogue distinct)]
    intro pair member other otherMember same
    exact apart pair member other otherMember
      ((settled_pathOf_eq_iff (below pair member) (below other otherMember) folder).mp same)

/-- A domain that is another one with something behind it takes the file of that one and a longer language. -/
def Overlap (pair other : String × String) : Prop :=
  ∃ middle, other.1 = fileStem pair.1 middle ∧ pair.2 = fileStem middle other.2

theorem Overlap.ne {pair other : String × String} (overlap : Overlap pair other) : pair ≠ other := by
  rintro rfl
  obtain ⟨middle, longer, -⟩ := overlap
  have := congrArg String.length longer
  simp only [fileStem, String.length_append, show ".".length = 1 from rfl] at this
  omega

/-- Each domain and language has a file of its own inside the folder exactly if no name starts with a slash or
climbs above where it starts, and no two names lead to the same file. Where no name holds a slash, this is
exactly if no domain and language overlap with others. -/
theorem separatesFiles_iff (writer : TranslationWriter) (catalogue : Catalogue) {locales : List String}
    (distinct : locales.Nodup) :
    let names := pairs catalogue locales
    (∀ domain locale, (domain, locale) ∈ names ↔
      domain ∈ catalogue.messages.map Message.outputDomain ∧ locale ∈ locales) ∧
    (writer.SeparatesFiles catalogue locales ↔
      (∀ pair ∈ names, Path.staysBelow (fileStem pair.1 pair.2) = true) ∧
        ∀ pair ∈ names, ∀ other ∈ names,
          Path.isSameFile (fileStem pair.1 pair.2) (fileStem other.1 other.2) = true → pair = other) ∧
      ((∀ pair ∈ names, '/' ∉ pair.1.toList ∧ '/' ∉ pair.2.toList) →
        (writer.SeparatesFiles catalogue locales ↔ ∀ pair ∈ names, ∀ other ∈ names, ¬Overlap pair other)) := by
  intro names
  have general := separatesFiles_iff_stems writer catalogue distinct
  refine ⟨fun domain locale => mem_pairs, general, fun noSlash => ?_⟩
  have plain : ∀ pair ∈ names, '/' ∉ (fileStem pair.1 pair.2).toList := fun pair member => by
    simp [fileStem, noSlash pair member]
  rw [general]
  constructor
  · rintro ⟨-, apart⟩ pair member other otherMember overlap
    refine overlap.ne (apart pair member other otherMember ?_)
    rw [Path.isSameFile_iff_of_noSlash (plain pair member) (plain other otherMember)]
    exact fileStem_eq_iff.mpr (.inr (.inl overlap))
  · intro apart
    refine ⟨fun pair member => Path.staysBelow_of_noSlash (plain pair member),
      fun pair member other otherMember same => ?_⟩
    rw [Path.isSameFile_iff_of_noSlash (plain pair member) (plain other otherMember)] at same
    rcases fileStem_eq_iff.mp same with ⟨sameDomain, sameLocale⟩ | overlap | overlap
    · exact Prod.ext sameDomain sameLocale
    · exact absurd overlap (apart pair member other otherMember)
    · exact absurd overlap (apart other otherMember pair member)

/-- Messages of a shop: one domain lies in a folder of its own, and another one goes on with a dot. -/
def shopDomains : Catalogue :=
  Catalogue.empty.addAll
    [{ id := "A", domain := some "shop" }, { id := "B", domain := some "admin/./user" },
      { id := "C", domain := some "shop.cart" }]

theorem shopDomains_are_separated :
    ["de", "en"].Nodup ∧ ({} : TranslationWriter).SeparatesFiles shopDomains ["de", "en"] := by
  have distinct : ["de", "en"].Nodup := by decide
  obtain ⟨members, separate, -⟩ := separatesFiles_iff {} shopDomains distinct
  refine ⟨distinct, separate.mpr ?_⟩
  have domains : shopDomains.messages.map Message.outputDomain = ["shop", "admin/./user", "shop.cart"] := by decide
  simp only [domains] at members
  have below : ∀ domain ∈ ["shop", "admin/./user", "shop.cart"], ∀ locale ∈ ["de", "en"],
      Path.staysBelow (fileStem domain locale) = true := by decide +kernel
  have apart : ∀ domain ∈ ["shop", "admin/./user", "shop.cart"], ∀ locale ∈ ["de", "en"],
      ∀ other ∈ ["shop", "admin/./user", "shop.cart"], ∀ language ∈ ["de", "en"],
        Path.isSameFile (fileStem domain locale) (fileStem other language) = true →
          (domain, locale) = (other, language) := by decide +kernel
  constructor
  · rintro ⟨domain, locale⟩ member
    obtain ⟨isDomain, isLocale⟩ := (members domain locale).mp member
    exact below domain isDomain locale isLocale
  · rintro ⟨domain, locale⟩ member ⟨other, language⟩ otherMember
    obtain ⟨isDomain, isLocale⟩ := (members domain locale).mp member
    obtain ⟨isOther, isLanguage⟩ := (members other language).mp otherMember
    exact apart domain isDomain locale isLocale other isOther language isLanguage

/-- Labels whose domains are not taken for names of files only. -/
def strayDomains : String :=
  "<?php $a = [['label' => 'A', 'translation_domain' => '../outside'], " ++
    "['label' => 'B', 'translation_domain' => 'shop'], ['label' => 'C', 'translation_domain' => './shop']];"

/-- One of the files lies outside the folder, and two domains have the same one. -/
theorem strayDomains_are_not_separated :
    ∃ unit log extraction, parseSource "ShopType.php" strayDomains = .ok (unit, log) ∧
      ({} : Extractor).run "ShopType.php" unit.nodes .empty = (none, extraction) ∧
      extraction.result.complete = true ∧
      extraction.catalogue.messages.map Message.outputDomain = ["../outside", "shop", "./shop"] ∧
      ∀ writer : TranslationWriter,
        (∃ pair ∈ pairs extraction.catalogue ["en"], ¬∀ folder, (writer.pathOf folder pair).IsInside folder) ∧
        (∃ pair ∈ pairs extraction.catalogue ["en"], ∃ other ∈ pairs extraction.catalogue ["en"], pair ≠ other ∧
          ∀ folder, writer.pathOf folder pair = writer.pathOf folder other) ∧
        ¬writer.SeparatesFiles extraction.catalogue ["en"] := by
  obtain ⟨unit, log, extraction, parsed, run, complete, checked⟩ := Extractor.exists_of_ofSource? (show
    (({} : Extractor).ofSource? "ShopType.php" strayDomains).any (fun found =>
      decide (found.2.catalogue.messages.map Message.outputDomain = ["../outside", "shop", "./shop"])) = true
    from by decide +kernel)
  have domains := of_decide_eq_true checked
  dsimp only at domains
  refine ⟨unit, log, extraction, parsed, run, complete, domains, fun writer => ?_⟩
  have listed {domain : String} (known : domain ∈ ["../outside", "shop", "./shop"]) :
      (domain, "en") ∈ pairs extraction.catalogue ["en"] := by
    rw [mem_pairs, domains]
    exact ⟨known, List.mem_singleton_self _⟩
  have outside : ¬∀ folder, (writer.pathOf folder ("../outside", "en")).IsInside folder := by
    rw [forall_isInside_pathOf_iff]
    decide +kernel
  have same (folder : Path) : writer.pathOf folder ("shop", "en") = writer.pathOf folder ("./shop", "en") := by
    have folders : Path.foldersOf (fileStem "./shop" "en") = Path.foldersOf (fileStem "shop" "en") := by decide +kernel
    have name : Path.lastNameOf (fileStem "./shop" "en") = Path.lastNameOf (fileStem "shop" "en") := by decide +kernel
    rw [pathOf_eq, pathOf_eq, folders, name, (rootOf_name_eq_empty_iff writer ("shop", "en")).mpr (by decide),
      (rootOf_name_eq_empty_iff writer ("./shop", "en")).mpr (by decide)]
  refine ⟨⟨_, listed (by decide), outside⟩, ⟨_, listed (by decide), _, listed (by decide), by decide, same⟩, ?_⟩
  rw [separatesFiles_iff_stems writer _ (List.nodup_singleton _)]
  exact fun separate => outside (forall_isInside_pathOf_iff.mpr (separate.1 _ (listed (by decide))))

end TranslationWriter

end FormHarvest
