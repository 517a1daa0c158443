import FormHarvest.Proofs.XmlNesting

namespace FormHarvest

namespace Xml

section Lines

@[simp] theorem unixLines_nil : unixLines [] = [] := rfl

theorem unixLines_cons {c : Char} (noReturn : c ≠ '\r') (rest : List Char) :
    unixLines (c :: rest) = c :: unixLines rest := by
  rw [unixLines] <;> simp [noReturn]

theorem unixLines_append {front : List Char} (noReturn : '\r' ∉ front) (rest : List Char) :
    unixLines (front ++ rest) = front ++ unixLines rest := by
  induction front with
  | nil => rfl
  | cons c others ih =>
    rw [List.mem_cons, not_or] at noReturn
    rw [List.cons_append, unixLines_cons (Ne.symm noReturn.1), ih noReturn.2, List.cons_append]

theorem unixLines_eq_self {text : List Char} (noReturn : '\r' ∉ text) : unixLines text = text := by
  simpa using unixLines_append noReturn []

theorem unixLines_eq_nil_iff {text : List Char} : unixLines text = [] ↔ text = [] := by
  unfold unixLines
  split <;> simp

theorem all_isCharacter_unixLines (text : List Char) :
    (unixLines text).all isCharacter = text.all isCharacter := by
  have feed : isCharacter '\n' = true := by decide
  have back : isCharacter '\r' = true := by decide
  fun_induction unixLines text with
  | case1 rest ih => simp [ih, feed, back]
  | case2 rest _ ih => simp [ih, feed, back]
  | case3 c rest _ _ ih => simp [ih]
  | case4 => rfl

end Lines

mutual

/-- An element as it is read: each end of a line in its texts is one line feed. -/
def normal : Xml → Xml
  | leaf name attributes text => leaf name attributes (String.ofList (unixLines text.toList))
  | branch name attributes children => branch name attributes (normalAll children)

def normalAll : List Xml → List Xml
  | [] => []
  | first :: rest => normal first :: normalAll rest

end

mutual

/-- All that may be any text in an element: the values of attributes, and the texts. -/
def texts : Xml → List String
  | leaf _ attributes text => attributes.map Prod.snd ++ [text]
  | branch _ attributes children => attributes.map Prod.snd ++ textsOfAll children

def textsOfAll : List Xml → List String
  | [] => []
  | first :: rest => texts first ++ textsOfAll rest

end

/-- Whether a text may stand in a document. -/
def isLegal (text : String) : Bool := text.toList.all isCharacter

section Characters

theorem isCharacter_of_continuesName {c : Char} (continues : continuesName c = true) :
    isCharacter c = true := by
  simp only [continuesName, startsName, isCharacter, inRanges, List.any_cons, List.any_nil, Bool.or_eq_true,
    Bool.and_eq_true, decide_eq_true_eq, Bool.or_false] at continues ⊢
  omega

theorem isLegal_of_isName {name : String} (named : isName name = true) : isLegal name = true := by
  obtain ⟨c, rest, chars, starts, continues⟩ := exists_of_isName named
  have first : isCharacter c = true := isCharacter_of_continuesName (by simp [continuesName, starts])
  rw [isLegal, chars, List.all_cons, first, Bool.true_and, List.all_eq_true]
  exact fun other member => isCharacter_of_continuesName (continues other member)

theorem all_isCharacter_escapedTextChar (c : Char) :
    (escapedTextChar c).all isCharacter = isCharacter c := by
  unfold escapedTextChar
  split_ifs with ampersand less greater <;> simp_all <;> decide

theorem all_isCharacter_escapedAttributeChar (c : Char) :
    (escapedAttributeChar c).all isCharacter = isCharacter c := by
  unfold escapedAttributeChar
  split_ifs with quote back feed tab
  case neg => exact all_isCharacter_escapedTextChar c
  all_goals simp_all; decide

theorem all_isCharacter_lineAt (depth : Nat) : (lineAt depth).all isCharacter = true := by
  have feed : isCharacter '\n' = true := by decide
  have blank : isCharacter ' ' = true := by decide
  simp [lineAt, feed, blank]

theorem all_isCharacter_attributes {attributes : List (String × String)}
    (named : attributes.all (isName ·.1) = true) :
    (attributes.flatMap writtenAttribute).all isCharacter = (attributes.map Prod.snd).all isLegal := by
  have signs : isCharacter ' ' = true ∧ isCharacter '=' = true ∧ isCharacter '"' = true := by decide
  induction attributes with
  | nil => rfl
  | cons first rest ih =>
    rw [List.all_cons, Bool.and_eq_true] at named
    have ofName := isLegal_of_isName named.1
    rw [isLegal] at ofName
    have ofFirst : (writtenAttribute first).all isCharacter = isLegal first.2 := by
      simp [writtenAttribute, signs, ofName, List.all_flatMap, all_isCharacter_escapedAttributeChar, isLegal]
    rw [List.flatMap_cons, List.all_append, ofFirst, ih named.2, List.map_cons, List.all_cons]

theorem all_isCharacter_opening {name : String} {attributes : List (String × String)}
    (named : isName name = true) (namedAll : attributes.all (isName ·.1) = true) :
    (opening name attributes).all isCharacter = (attributes.map Prod.snd).all isLegal := by
  have ofName := isLegal_of_isName named
  rw [isLegal] at ofName
  rw [opening, List.all_append, List.all_cons, ofName, all_isCharacter_attributes namedAll,
    (by decide : isCharacter '<' = true)]
  rfl

theorem all_isCharacter_closing {name : String} (named : isName name = true) :
    (closing name).all isCharacter = true := by
  have signs : isCharacter '<' = true ∧ isCharacter '/' = true ∧ isCharacter '>' = true := by decide
  have ofName := isLegal_of_isName named
  rw [isLegal] at ofName
  simp [closing, signs, ofName]

mutual

/-- What is written of an element may stand in a document exactly if all its texts may. -/
theorem all_isCharacter_writtenAt (depth : Nat) (element : Xml) (named : element.isNamed = true) :
    (writtenAt depth element).all isCharacter = element.texts.all isLegal := by
  have signs : isCharacter ' ' = true ∧ isCharacter '/' = true ∧ isCharacter '>' = true := by decide
  cases element with
  | leaf name attributes text =>
    rw [isNamed, Bool.and_eq_true] at named
    have ofText : (text.toList.flatMap escapedTextChar).all isCharacter = isLegal text := by
      simp only [List.all_flatMap, all_isCharacter_escapedTextChar, isLegal]
    rw [writtenAt, texts, List.all_append, List.all_append, all_isCharacter_opening named.1 named.2]
    split
    · rename_i empty
      subst empty
      simp [signs, isLegal]
    · simp [signs, ofText, all_isCharacter_closing named.1]
  | branch name attributes children =>
    rw [isNamed, Bool.and_eq_true, Bool.and_eq_true] at named
    obtain ⟨⟨isName, areNames⟩, inside⟩ := named
    cases children with
    | nil =>
      rw [writtenAt, texts, List.all_append, List.all_append, all_isCharacter_opening isName areNames]
      simp [signs, textsOfAll]
    | cons first rest =>
      rw [areNamed, Bool.and_eq_true] at inside
      have others := all_isCharacter_writtenSiblings (depth + 1) rest inside.2
      have ofFirst := all_isCharacter_writtenAt (depth + 1) first inside.1
      rw [writtenAt, texts, textsOfAll]
      simp only [List.all_append, List.all_cons, all_isCharacter_opening isName areNames, signs, ofFirst, others,
        all_isCharacter_lineAt, all_isCharacter_closing isName, Bool.and_true, Bool.and_assoc]

theorem all_isCharacter_writtenSiblings (depth : Nat) (elements : List Xml) (named : areNamed elements = true) :
    (writtenSiblings depth elements).all isCharacter = (textsOfAll elements).all isLegal := by
  cases elements with
  | nil => rfl
  | cons first rest =>
    rw [areNamed, Bool.and_eq_true] at named
    rw [writtenSiblings, textsOfAll, List.all_append, List.all_append, List.all_append, all_isCharacter_lineAt,
      all_isCharacter_writtenAt depth first named.1, all_isCharacter_writtenSiblings depth rest named.2,
      Bool.true_and]

end

end Characters

section Normal

mutual

theorem isNamed_normal (element : Xml) : element.normal.isNamed = element.isNamed := by
  cases element with
  | leaf name attributes text => rfl
  | branch name attributes children => rw [normal, isNamed, isNamed, areNamed_normalAll children]

theorem areNamed_normalAll (elements : List Xml) : areNamed (normalAll elements) = areNamed elements := by
  cases elements with
  | nil => rfl
  | cons first rest => rw [normalAll, areNamed, areNamed, isNamed_normal first, areNamed_normalAll rest]

end

theorem return_notMem_of_isName {name : String} (named : isName name = true) : '\r' ∉ name.toList := by
  obtain ⟨c, rest, chars, starts, continues⟩ := exists_of_isName named
  rw [chars, List.mem_cons, not_or]
  refine ⟨Ne.symm (ne_of_startsName starts (by decide)), fun member => ?_⟩
  have := continues _ member
  revert this
  decide

theorem return_notMem_opening {name : String} {attributes : List (String × String)}
    (named : isName name = true) (namedAll : attributes.all (isName ·.1) = true) :
    '\r' ∉ opening name attributes := by
  have ofValue (value : String) : '\r' ∉ value.toList.flatMap escapedAttributeChar := by
    intro member
    obtain ⟨c, -, member⟩ := List.mem_flatMap.mp member
    unfold escapedAttributeChar escapedTextChar at member
    split_ifs at member with _ back
    case neg => exact back (beq_iff_eq.mpr (List.mem_singleton.mp member).symm)
    all_goals revert member; decide
  rw [opening]
  simp only [List.cons_append, List.mem_cons, List.mem_append, List.mem_flatMap, not_or, not_exists, not_and]
  refine ⟨by decide, return_notMem_of_isName named, fun entry member => ?_⟩
  have ofName := return_notMem_of_isName (List.all_eq_true.mp namedAll entry member)
  simp [writtenAttribute, ofName, ofValue]

theorem return_notMem_closing {name : String} (named : isName name = true) : '\r' ∉ closing name := by
  simp [closing, return_notMem_of_isName named]

theorem return_notMem_lineAt (depth : Nat) : '\r' ∉ lineAt depth := by simp [lineAt]

/-- The ends of lines in a text up to the tag behind it. -/
theorem unixLines_escaped (text rest : List Char) :
    unixLines (text.flatMap escapedTextChar ++ '<' :: rest)
      = (unixLines text).flatMap escapedTextChar ++ unixLines ('<' :: rest) := by
  have feed : escapedTextChar '\n' = ['\n'] := by decide
  have back : escapedTextChar '\r' = ['\r'] := by decide
  fun_induction unixLines text with
  | case1 more ih => simp [feed, back, unixLines, ih]
  | case2 more noFeed ih =>
    have next (others : List Char) : more.flatMap escapedTextChar ++ '<' :: rest ≠ '\n' :: others := by
      cases more with
      | nil => simp
      | cons c more =>
        have differs : c ≠ '\n' := fun same => noFeed more (same ▸ rfl)
        rcases escapedTextChar_cases c with ⟨itself, -⟩ | ⟨name, written, -⟩
        · simp [itself, differs]
        · simp [written]
    rw [List.flatMap_cons, back, List.singleton_append, List.cons_append, unixLines, ih, List.flatMap_cons, feed]
    · rfl
    · exact next
  | case3 c more _ noReturn ih =>
    have differs : '\r' ∉ escapedTextChar c := by
      unfold escapedTextChar
      split_ifs <;> simp [Ne.symm noReturn]
    rw [List.flatMap_cons, List.append_assoc, unixLines_append differs, ih, List.flatMap_cons, List.append_assoc]
  | case4 => rfl

mutual

/-- What is written of an element, with the ends of lines as they are read. -/
theorem unixLines_writtenAt (depth : Nat) (element : Xml) (named : element.isNamed = true) (rest : List Char) :
    unixLines (writtenAt depth element ++ rest) = writtenAt depth element.normal ++ unixLines rest := by
  cases element with
  | leaf name attributes text =>
    rw [isNamed, Bool.and_eq_true] at named
    have empty : String.ofList (unixLines text.toList) = "" ↔ text = "" := by
      rw [← String.ofList_nil, String.ofList_inj, unixLines_eq_nil_iff, String.toList_eq_nil_iff]
    rw [normal, writtenAt, writtenAt, List.append_assoc, unixLines_append (return_notMem_opening named.1 named.2),
      List.append_assoc]
    simp only [empty, String.toList_ofList]
    congr 1
    split
    · rw [unixLines_append (by decide)]
    · have closes := unixLines_append (return_notMem_closing named.1) rest
      rw [closing, List.cons_append, List.cons_append] at closes
      rw [List.cons_append, List.cons_append, List.cons_append, unixLines_cons (by decide), List.append_assoc,
        closing, List.cons_append, List.cons_append, unixLines_escaped, closes]
      simp only [List.cons_append, List.append_assoc]
  | branch name attributes children =>
    rw [isNamed, Bool.and_eq_true, Bool.and_eq_true] at named
    obtain ⟨⟨isName, areNames⟩, inside⟩ := named
    have opens := return_notMem_opening isName areNames
    cases children with
    | nil =>
      rw [normal, normalAll, writtenAt, List.append_assoc, unixLines_append opens, unixLines_append (by decide),
        List.append_assoc]
    | cons first others =>
      rw [areNamed, Bool.and_eq_true] at inside
      rw [normal, normalAll, writtenAt, writtenAt]
      simp only [List.append_assoc, List.cons_append]
      rw [unixLines_append opens, unixLines_cons (by decide), unixLines_append (return_notMem_lineAt _),
        unixLines_writtenAt (depth + 1) first inside.1, unixLines_writtenSiblings (depth + 1) others inside.2,
        unixLines_append (return_notMem_lineAt _), unixLines_append (return_notMem_closing isName)]

theorem unixLines_writtenSiblings (depth : Nat) (elements : List Xml) (named : areNamed elements = true)
    (rest : List Char) :
    unixLines (writtenSiblings depth elements ++ rest)
      = writtenSiblings depth (normalAll elements) ++ unixLines rest := by
  cases elements with
  | nil => rfl
  | cons first others =>
    rw [areNamed, Bool.and_eq_true] at named
    rw [normalAll, writtenSiblings, writtenSiblings]
    simp only [List.append_assoc]
    rw [unixLines_append (return_notMem_lineAt _), unixLines_writtenAt depth first named.1,
      unixLines_writtenSiblings depth others named.2]

end

end Normal

section Documents

/-- What the declaration of every document says. -/
def declared : List (String × String) := [("version", "1.0"), ("encoding", "utf-8")]

/-- The declaration with which every document starts. -/
def declaration : List Char := "<?xml version=\"1.0\" encoding=\"utf-8\"?>".toList

theorem toList_document (root : Xml) :
    (document root).toList = declaration ++ '\n' :: (writtenAt 0 root ++ ['\n']) := by
  have first : "<?xml version=\"1.0\" encoding=\"utf-8\"?>\n".toList = declaration ++ ['\n'] := by decide
  have last : "\n".toList = ['\n'] := by decide
  unfold document
  simp only [String.toList_append, String.toList_ofList, first, last, List.append_assoc, List.nil_append,
    List.cons_append]

theorem behindDeclaration?_declaration (rest : List Char) :
    behindDeclaration? (declaration ++ rest) = some rest := by
  obtain ⟨front, spelled, said⟩ : ∃ front, declaration = '<' :: '?' :: 'x' :: 'm' :: 'l' :: ' ' :: front ∧
      declared.flatMap writtenAttribute ++ ['?', '>'] = ' ' :: front :=
    ⟨declaration.drop 6, by decide, by decide⟩
  have plain : front.contains '&' = false := by
    have := (by decide : declaration.contains '&' = false)
    simpa [spelled] using this
  have read : attributes? (' ' :: (front ++ rest)) = some (declared, '?' :: '>' :: rest) := by
    rw [← List.cons_append, ← said, List.append_assoc]
    exact attributes?_written (by decide) rfl (.inr (.inr rfl))
  have written : (front ++ rest).take ((front ++ rest).length - rest.length) = front := by simp
  have declares : declares declared = true := by decide
  simp only [spelled, List.cons_append]
  rw [behindDeclaration?, if_pos (by decide), read]
  simp only [written, declares, plain, Bool.not_false, Bool.and_true, if_true]

/-- A document is read as its root with the ends of lines as they are read, if its texts hold nothing
that may not stand in a document. -/
theorem read?_document {root : Xml} (named : root.isNamed = true) :
    read? (document root) = if root.texts.all isLegal then item? .ofDocument 0 root.normal else none := by
  have feed : Scans ['\n'] [.char '\n'] := char_scans (by decide) (by decide) (by decide)
  have characters : unixLines (document root).toList
      = declaration ++ '\n' :: (writtenAt 0 root.normal ++ ['\n']) := by
    rw [toList_document, unixLines_append (by decide), unixLines_cons (by decide), unixLines_writtenAt 0 root named]
    rfl
  have legal : (declaration ++ '\n' :: (writtenAt 0 root.normal ++ ['\n'])).all isCharacter
      = root.texts.all isLegal := by
    rw [← characters, all_isCharacter_unixLines, toList_document]
    simp only [List.all_append, List.all_cons, List.all_nil, all_isCharacter_writtenAt 0 root named,
      (by decide : declaration.all isCharacter = true), (by decide : isCharacter '\n' = true), Bool.true_and,
      Bool.and_true]
  have marks : marks? ('\n' :: (writtenAt 0 root.normal ++ ['\n']))
      = some (.char '\n' :: (marksAt 0 root.normal ++ [.char '\n'])) := by
    have whole := feed.append ((writtenAt_scans 0 root.normal (by rw [isNamed_normal, named])).append feed) []
    have ends : marks? [] = some [] := by rw [marks?, if_pos rfl]
    rw [ends, Option.map_some, List.append_nil, List.append_nil] at whole
    exact whole
  have outside : XmlReading.step {} (.char '\n') = some {} := rfl
  have outside : XmlReading.step {} (.char '\n') = some {} := rfl
  have run : (XmlMark.char '\n' :: (marksAt 0 root.normal ++ [.char '\n'])).foldlM XmlReading.step {}
      = (item? .ofDocument 0 root.normal).map fun item => XmlReading.put {} [item] := by
    have inside : (marksAt 0 root.normal).foldlM XmlReading.step {}
        = (item? .ofDocument 0 root.normal).map fun item => XmlReading.put {} [item] :=
      foldlM_marksAt 0 root.normal {}
    rw [List.foldlM_cons, outside, Option.bind_eq_bind, Option.bind_some, List.foldlM_append, inside]
    cases item? .ofDocument 0 root.normal <;> rfl
  rw [read?]
  simp only [characters, legal, behindDeclaration?_declaration]
  cases root.texts.all isLegal with
  | false => rfl
  | true =>
    simp only [Option.bind_eq_bind, Option.bind_some, Bool.not_true, Bool.false_eq_true, if_false, if_true, marks, run]
    cases item? .ofDocument 0 root.normal <;> rfl

end Documents

end Xml

namespace XmlScope

variable {scope : XmlScope} {name : String} {names : List String} {known : XmlName} {knownNames : List XmlName}

/-- Whether a tag with attributes that declare no namespace has these names in a scope. -/
def knows (scope : XmlScope) (name : String) (names : List String) (known : XmlName)
    (knownNames : List XmlName) : Bool :=
  names.all (fun name => (declared? name).isNone) && decide names.Nodup
    && decide (scope.elementName? name = some known)
    && decide (names.mapM scope.attributeName? = some knownNames) && decide knownNames.Nodup

theorem tag?_zip (knows : scope.knows name names known knownNames = true) {values : List String}
    (paired : names.length = values.length) :
    scope.tag? name (names.zip values) = some ⟨known, knownNames.zip values, scope⟩ := by
  simp only [XmlScope.knows, Bool.and_eq_true, List.all_eq_true, Option.isNone_iff_eq_none, decide_eq_true_eq] at knows
  obtain ⟨⟨⟨⟨plain, distinct⟩, element⟩, others⟩, apart⟩ := knows
  have attributes : (names.zip values).map Prod.fst = names := List.map_fst_zip paired.le
  have spoken : (names.zip values).map Prod.snd = values := List.map_snd_zip paired.ge
  unfold tag?
  extract_lets declarations kept inner
  have declares : declarations = [] := by
    refine List.filterMap_eq_nil_iff.mpr ?_
    rintro ⟨name, value⟩ member
    simp [plain name (List.of_mem_zip member).1]
  have keeps : kept = names.zip values := by
    refine List.filter_eq_self.mpr ?_
    rintro ⟨name, value⟩ member
    simp [plain name (List.of_mem_zip member).1]
  have same : inner = scope := congrArg (· ++ scope) declares
  rw [same, declares, keeps, attributes, spoken, if_pos ⟨distinct, rfl⟩]
  simp only [element, others, apart, if_true]

end XmlScope

namespace Xml

theorem normalAll_eq_map (elements : List Xml) : normalAll elements = elements.map normal := by
  induction elements with
  | nil => rfl
  | cons first rest ih => rw [normalAll, ih, List.map_cons]

theorem areNamed_eq_all (elements : List Xml) : areNamed elements = elements.all isNamed := by
  induction elements with
  | nil => rfl
  | cons first rest ih => rw [areNamed, ih, List.all_cons]

theorem textsOfAll_eq_flatMap (elements : List Xml) : textsOfAll elements = elements.flatMap texts := by
  induction elements with
  | nil => rfl
  | cons first rest ih => rw [textsOfAll, ih, List.flatMap_cons]

/-- What elements at a depth mean once they are read. -/
def Reads (scope : XmlScope) (depth : Nat) (elements : List Xml) (items : List XmlItem) : Prop :=
  items? scope depth (elements.map normal) = some items

namespace Reads

variable {scope : XmlScope} {depth : Nat}

theorem nothing : Reads scope depth [] [] := rfl

theorem cons {element : Xml} {item : XmlItem} {rest : List Xml} {items : List XmlItem}
    (first : element.normal.item? scope depth = some item) (others : Reads scope depth rest items) :
    Reads scope depth (element :: rest) (item :: items) := by
  rw [Reads, List.map_cons, items?, first, Option.bind_some, others, Option.map_some]

theorem append {first second : List Xml} {items more : List XmlItem} (one : Reads scope depth first items)
    (two : Reads scope depth second more) : Reads scope depth (first ++ second) (items ++ more) := by
  induction first generalizing items with
  | nil =>
    cases one
    exact two
  | cons element rest ih =>
    rw [Reads, List.map_cons, items?, Option.bind_eq_some_iff] at one
    obtain ⟨item, read, others⟩ := one
    obtain ⟨behind, readOthers, rfl⟩ := Option.map_eq_some_iff.mp others
    exact .cons read (ih readOthers)

theorem map {α : Type} {write : α → Xml} {read : α → XmlItem} {all : List α}
    (each : ∀ one ∈ all, (write one).normal.item? scope depth = some (read one)) :
    Reads scope depth (all.map write) (all.map read) := by
  induction all with
  | nil => exact nothing
  | cons first rest ih =>
    rw [List.forall_mem_cons] at each
    exact .cons each.1 (ih each.2)

end Reads

section Tags

variable {scope : XmlScope} {name : String} (names values : List String) {known : XmlName}
    (knownNames : List XmlName)

theorem item?_leaf (knows : scope.knows name names known knownNames = true)
    (paired : names.length = values.length) (depth : Nat) (text : String) :
    (leaf name (names.zip values) text).normal.item? scope depth
      = some (.element known (knownNames.zip values) ((unixLines text.toList).map .char)) := by
  rw [normal, item?, XmlScope.tag?_zip knows paired, String.toList_ofList]
  rfl

theorem item?_branch (knows : scope.knows name names known knownNames = true)
    (paired : names.length = values.length) {depth : Nat} {children : List Xml} {items : List XmlItem}
    (inside : Reads scope (depth + 1) children items) :
    (branch name (names.zip values) children).normal.item? scope depth
      = some (.element known (knownNames.zip values) (laidOut depth items)) := by
  rw [normal, item?, XmlScope.tag?_zip knows paired, Option.bind_some, normalAll_eq_map, inside]
  rfl

end Tags

end Xml

end FormHarvest
