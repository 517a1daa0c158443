import FormHarvest.Proofs.XmlScanning

namespace FormHarvest

namespace Xml

def lineItems (depth : Nat) : List XmlItem := (lineAt depth).map .char

/-- Elements inside another one that starts at a depth, each on lines of their own. -/
def laidOut (depth : Nat) (items : List XmlItem) : List XmlItem :=
  if items.isEmpty then []
  else (items.flatMap fun item => lineItems (depth + 1) ++ [item]) ++ lineItems depth

mutual

/-- What an element means where some namespaces are declared; nothing when one of its tags cannot be
read. -/
def item? (scope : XmlScope) (depth : Nat) : Xml → Option XmlItem
  | leaf name attributes text =>
    (scope.tag? name attributes).map fun tag =>
      .element tag.name tag.attributes (text.toList.map .char)
  | branch name attributes children =>
    (scope.tag? name attributes).bind fun tag =>
      (items? tag.scope (depth + 1) children).map fun items =>
        .element tag.name tag.attributes (laidOut depth items)

def items? (scope : XmlScope) (depth : Nat) : List Xml → Option (List XmlItem)
  | [] => some []
  | first :: rest =>
    (item? scope depth first).bind fun item => (items? scope depth rest).map (item :: ·)

end

end Xml

namespace XmlReading

variable {reading : XmlReading}

/-- The reader behind a start tag. -/
def enter (reading : XmlReading) (name : String) (tag : XmlTag) : XmlReading :=
  { around := ⟨name, tag, reading.content⟩ :: reading.around }

@[simp] theorem scope_put (items : List XmlItem) : (reading.put items).scope = reading.scope := rfl

@[simp] theorem scope_enter (name : String) (tag : XmlTag) : (reading.enter name tag).scope = tag.scope := rfl

@[simp] theorem around_put (items : List XmlItem) : (reading.put items).around = reading.around := rfl

theorem put_put (items more : List XmlItem) : (reading.put items).put more = reading.put (items ++ more) := by
  simp only [put, List.reverse_append, List.append_assoc]

theorem foldlM_chars (inside : reading.around ≠ []) (text : List Char) :
    (text.map .char).foldlM step reading = some (reading.put (text.map .char)) := by
  induction text generalizing reading with
  | nil => rfl
  | cons c rest ih =>
    have first : reading.step (.char c) = some (reading.put [.char c]) := by
      rw [step, if_neg (by simpa using inside)]
    have behind : (reading.put [.char c]).around ≠ [] := inside
    rw [List.map_cons, List.foldlM_cons, first, Option.bind_eq_bind, Option.bind_some, ih behind, put_put]
    rfl

theorem foldlM_charMarks (inside : reading.around ≠ []) (text : List Char) :
    (text.map Xml.charMark).foldlM step reading = some (reading.put (text.map .char)) := by
  induction text generalizing reading with
  | nil => rfl
  | cons c rest ih =>
    have first : reading.step (Xml.charMark c) = some (reading.put [.char c]) := by
      unfold Xml.charMark
      split <;> rw [step, if_neg (by simpa using inside)]
    have behind : (reading.put [.char c]).around ≠ [] := inside
    rw [List.map_cons, List.foldlM_cons, first, Option.bind_eq_bind, Option.bind_some, ih behind, put_put]
    rfl

/-- What stands between two tags becomes the content of their element. -/
theorem foldlM_between {name : String} {attributes : List (String × String)} {middle : List XmlMark}
    {content : XmlTag → Option (List XmlItem)}
    (within : ∀ tag, middle.foldlM step (reading.enter name tag)
      = (content tag).map (reading.enter name tag).put) :
    (XmlMark.opening name attributes :: (middle ++ [.closing name])).foldlM step reading
      = ((reading.scope.tag? name attributes).bind fun tag =>
          (content tag).map fun items => XmlItem.element tag.name tag.attributes items).map
            fun item => reading.put [item] := by
  rw [List.foldlM_cons, step]
  cases reading.scope.tag? name attributes with
  | none => rfl
  | some tag =>
    have entered : middle.foldlM step { around := ⟨name, tag, reading.content⟩ :: reading.around }
        = (content tag).map (reading.enter name tag).put := within tag
    rw [Option.map_some, Option.bind_eq_bind, Option.bind_some, List.foldlM_append, entered,
      Option.bind_some]
    cases content tag with
    | none => rfl
    | some items => simp [step, enter, put]

end XmlReading

namespace Xml

variable {reading : XmlReading}

theorem foldlM_lineMarks (inside : reading.around ≠ []) (depth : Nat) :
    (lineMarks depth).foldlM XmlReading.step reading = some (reading.put (lineItems depth)) :=
  XmlReading.foldlM_chars inside _

mutual

/-- What stands in the document of an element is read as what the element means. -/
theorem foldlM_marksAt (depth : Nat) (element : Xml) (reading : XmlReading) :
    (marksAt depth element).foldlM XmlReading.step reading
      = (item? reading.scope depth element).map fun item => reading.put [item] := by
  cases element with
  | leaf name attributes text =>
    rw [marksAt, item?]
    split
    · rename_i empty
      subst empty
      rw [List.foldlM_cons, XmlReading.step]
      cases reading.scope.tag? name attributes <;> rfl
    · have within (tag : XmlTag) :
          (text.toList.map charMark).foldlM XmlReading.step (reading.enter name tag)
            = (some (text.toList.map XmlItem.char)).map (reading.enter name tag).put :=
        XmlReading.foldlM_charMarks (List.cons_ne_nil _ _) text.toList
      rw [XmlReading.foldlM_between within]
      cases reading.scope.tag? name attributes <;> rfl
  | branch name attributes children =>
    cases children with
    | nil =>
      rw [marksAt, item?, List.foldlM_cons, XmlReading.step]
      simp only [items?]
      cases reading.scope.tag? name attributes <;> rfl
    | cons first rest =>
      have within (tag : XmlTag) :
          (siblingMarks (depth + 1) (first :: rest) ++ lineMarks depth).foldlM XmlReading.step
              (reading.enter name tag)
            = ((items? tag.scope (depth + 1) (first :: rest)).map (laidOut depth)).map
                (reading.enter name tag).put := by
        have inside : (reading.enter name tag).around ≠ [] := List.cons_ne_nil _ _
        rw [List.foldlM_append, foldlM_siblingMarks (depth + 1) (first :: rest) _ inside,
          XmlReading.scope_enter]
        cases found : items? tag.scope (depth + 1) (first :: rest) with
        | none => rfl
        | some items =>
          have nonempty : items.isEmpty = false := by
            obtain ⟨item, -, others⟩ := Option.bind_eq_some_iff.mp (by rw [items?] at found; exact found)
            obtain ⟨more, -, rfl⟩ := Option.map_eq_some_iff.mp others
            rfl
          have behind : ((reading.enter name tag).put
              (items.flatMap fun item => lineItems (depth + 1) ++ [item])).around ≠ [] := inside
          simp only [Option.map_some, Option.bind_eq_bind, Option.bind_some, foldlM_lineMarks behind,
            XmlReading.put_put, laidOut, nonempty, Bool.false_eq_true, if_false]
      have marks : marksAt depth (branch name attributes (first :: rest))
          = .opening name attributes
            :: ((siblingMarks (depth + 1) (first :: rest) ++ lineMarks depth) ++ [.closing name]) := by
        rw [marksAt, siblingMarks]
      rw [marks, XmlReading.foldlM_between within, item?]
      congr 2
      funext tag
      rw [Option.map_map]
      rfl

/-- Further elements are read one after the other, each behind its line. -/
theorem foldlM_siblingMarks (depth : Nat) (elements : List Xml) (reading : XmlReading)
    (inside : reading.around ≠ []) :
    (siblingMarks depth elements).foldlM XmlReading.step reading
      = (items? reading.scope depth elements).map fun items =>
          reading.put (items.flatMap fun item => lineItems depth ++ [item]) := by
  cases elements with
  | nil => rfl
  | cons first rest =>
    have behindLine : (reading.put (lineItems depth)).around ≠ [] := inside
    rw [siblingMarks, items?, List.foldlM_append, List.foldlM_append, foldlM_lineMarks inside,
      Option.bind_eq_bind, Option.bind_some, foldlM_marksAt depth first, XmlReading.scope_put]
    cases item? reading.scope depth first with
    | none => rfl
    | some item =>
      have behindItem : ((reading.put (lineItems depth)).put [item]).around ≠ [] := inside
      rw [Option.map_some, Option.bind_some, Option.bind_some,
        foldlM_siblingMarks depth rest _ behindItem, XmlReading.scope_put, XmlReading.scope_put]
      cases items? reading.scope depth rest with
      | none => rfl
      | some items => simp [XmlReading.put_put]

end

end Xml

end FormHarvest
