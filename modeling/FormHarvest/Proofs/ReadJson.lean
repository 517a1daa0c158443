import FormHarvest.Json.Reader
import FormHarvest.Proofs.WrittenGroups
import Mathlib

namespace FormHarvest.Json

/-- A value without numbers in which no object has a name twice, with at most `depth` levels of lists
and objects. -/
inductive IsTextual : Nat → Json → Prop
  | null {depth : Nat} : IsTextual depth .null
  | bool {depth : Nat} (value : Bool) : IsTextual depth (.bool value)
  | string {depth : Nat} (value : String) : IsTextual depth (.string value)
  | list {depth : Nat} {items : List Json} (parts : ∀ item ∈ items, IsTextual depth item) :
      IsTextual (depth + 1) (.list items)
  | object {depth : Nat} {fields : List (String × Json)} (distinct : (fields.map Prod.fst).Nodup)
      (parts : ∀ field ∈ fields, IsTextual depth field.2) : IsTextual (depth + 1) (.object fields)

section Gaps

theorem skipGaps_append {gap : List Char} (blank : ∀ c ∈ gap, isGap c = true) (rest : List Char) :
    skipGaps (gap ++ rest) = skipGaps rest :=
  List.dropWhile_append_of_pos blank

theorem skipGaps_of_sign {c : Char} (sign : isGap c = false) (rest : List Char) :
    skipGaps (c :: rest) = c :: rest :=
  List.dropWhile_cons_of_neg (by simp [sign])

theorem isGap_of_mem_gap {layout : Layout} {depth : Nat} : ∀ c ∈ layout.gap depth, isGap c = true := by
  intro c member
  cases layout with
  | oneLine => cases member
  | lines indent =>
    rcases List.mem_cons.mp member with rfl | member
    · rfl
    · rw [List.eq_of_mem_replicate member]
      rfl

theorem skipGaps_gap (layout : Layout) (depth : Nat) (rest : List Char) :
    skipGaps (layout.gap depth ++ rest) = skipGaps rest :=
  skipGaps_append isGap_of_mem_gap rest

/-- A colon is met at once, and behind it only blanks. -/
theorem skipGaps_colon (layout : Layout) (rest : List Char) :
    ∃ behind, skipGaps (layout.colon ++ rest) = ':' :: behind ∧ skipGaps behind = skipGaps rest := by
  cases layout with
  | oneLine => exact ⟨rest, rfl, rfl⟩
  | lines indent => exact ⟨' ' :: rest, rfl, rfl⟩

/-- A value starts neither with a blank nor with a closing sign or a byte order mark. -/
theorem exists_start_writtenAt {depth : Nat} {json : Json} (textual : json.IsTextual depth) (layout : Layout)
    (level : Nat) :
    ∃ c rest, writtenAt layout level json = c :: rest ∧ isGap c = false ∧ c ≠ ']' ∧ c ≠ '\uFEFF' := by
  cases textual with
  | null => exact ⟨_, _, rfl, by decide⟩
  | bool value => cases value <;> exact ⟨_, _, rfl, by decide⟩
  | string value => exact ⟨_, _, rfl, by decide⟩
  | @list depth items parts => cases items <;> exact ⟨_, _, rfl, by decide⟩
  | @object depth fields distinct parts => cases fields <;> exact ⟨_, _, rfl, by decide⟩

theorem skipGaps_writtenAt {depth : Nat} {json : Json} (textual : json.IsTextual depth) (layout : Layout)
    (level : Nat) (rest : List Char) :
    skipGaps (writtenAt layout level json ++ rest) = writtenAt layout level json ++ rest := by
  obtain ⟨c, others, starts, noGap, -⟩ := exists_start_writtenAt textual layout level
  rw [starts, List.cons_append, skipGaps_of_sign noGap]

end Gaps

section Texts

theorem fourHex?_hexDigits {n : Nat} (small : n < 32) (rest : List Char) :
    fourHex? (hexDigits 4 n ++ rest) = some (n, rest) := by
  interval_cases n <;> rfl

theorem length_hexDigits {n : Nat} (small : n < 32) : (hexDigits 4 n).length = 4 := by
  revert n
  decide

theorem codePointEscape_hexDigits {c : Char} (small : c.toNat < 32) {rest : List Char} (more : rest ≠ []) :
    codePointEscape (hexDigits 4 c.toNat ++ rest) = .ok (c.toNat, rest) := by
  have long : ¬(hexDigits 4 c.toNat ++ rest).length ≤ 4 := by
    have := List.length_pos_iff.mpr more
    rw [List.length_append, length_hexDigits small]
    omega
  have noSurrogate : ¬0xD800 ≤ c.toNat := by omega
  rw [codePointEscape, if_neg long, fourHex?_hexDigits small]
  simp [noSurrogate]

/-- A character is read as it was written. -/
theorem readText_escapedChar (c : Char) (start rounds : Nat) (read : List Char) {rest : List Char}
    (more : rest ≠ []) :
    readText start (rounds + 1) read (escapedChar c ++ rest) = readText start rounds (c :: read) rest := by
  unfold escapedChar
  split_ifs with quote backslash lineFeed carriageReturn tab formFeed backspace control
  case pos =>
    obtain rfl := eq_of_beq quote
    rfl
  case pos =>
    obtain rfl := eq_of_beq backslash
    rfl
  case pos =>
    obtain rfl := eq_of_beq lineFeed
    rfl
  case pos =>
    obtain rfl := eq_of_beq carriageReturn
    rfl
  case pos =>
    obtain rfl := eq_of_beq tab
    rfl
  case pos =>
    obtain rfl := eq_of_beq formFeed
    rfl
  case pos =>
    obtain rfl := eq_of_beq backspace
    rfl
  case pos =>
    simp only [List.cons_append]
    rw [readText.eq_def]
    simp [codePointEscape_hexDigits control more]
  case neg =>
    rw [List.singleton_append, readText.eq_def]
    simp only [quote, control, backslash, if_false, Bool.false_eq_true]

theorem length_le_flatMap_escapedChar (text : List Char) : text.length ≤ (text.flatMap escapedChar).length := by
  induction text with
  | nil => exact Nat.le_refl 0
  | cons c rest ih =>
    have one : 1 ≤ (escapedChar c).length := by
      unfold escapedChar
      split_ifs <;> simp
    rw [List.flatMap_cons, List.length_append, List.length_cons]
    omega

theorem readText_flatMap_escapedChar (start : Nat) {text : List Char} {rounds : Nat} (enough : text.length < rounds)
    (read rest : List Char) :
    readText start rounds read (text.flatMap escapedChar ++ '"' :: rest)
      = .ok (String.ofList (read.reverse ++ text), rest) := by
  induction text generalizing rounds read with
  | nil =>
    obtain ⟨rounds, rfl⟩ := Nat.exists_eq_add_of_lt enough
    simp [readText]
  | cons c text ih =>
    obtain ⟨rounds, rfl⟩ := Nat.exists_eq_add_of_lt enough
    rw [List.flatMap_cons, List.append_assoc, readText_escapedChar c _ _ _ (by simp),
      ih (by rw [List.length_cons]; omega)]
    simp

theorem writtenText_append (text : String) (rest : List Char) :
    writtenText text ++ rest = '"' :: (text.toList.flatMap escapedChar ++ '"' :: rest) := by
  simp [writtenText]

/-- A text is read as it was written, whatever its characters are. -/
theorem readText_writtenText (start : Nat) (text : String) {limit : Nat} (enough : (writtenText text).length ≤ limit)
    (rest : List Char) :
    readText start limit [] (text.toList.flatMap escapedChar ++ '"' :: rest) = .ok (text, rest) := by
  have long := length_le_flatMap_escapedChar text.toList
  rw [readText_flatMap_escapedChar start]
  · simp
  · simp only [writtenText, List.length_cons, List.length_append, List.length_nil] at enough
    omega

end Texts

section Parts

variable {value : List Char → Except ReadFault (Json × List Char)} {layout : Layout} {depth level outer rounds : Nat}

/-- A reader of values that reads a value as it was written, whatever comes behind it. -/
def ReadsBack (value : List Char → Except ReadFault (Json × List Char)) (layout : Layout) (level : Nat) (json : Json) :
    Prop :=
  ∀ rest, value (writtenAt layout level json ++ rest) = .ok (json, rest)

theorem skipGaps_closing {c : Char} (closes : isGap c = false) (rest : List Char) :
    skipGaps (layout.gap outer ++ c :: rest) = c :: rest := by
  rw [skipGaps_gap, skipGaps_of_sign closes]

theorem readItems_written {first : Json} {items : List Json}
    (readsBack : ∀ item ∈ first :: items, ReadsBack value layout level item)
    (textual : ∀ item ∈ items, item.IsTextual depth) (enough : items.length < rounds) (read : List Json)
    (rest : List Char) :
    readItems value rounds read
        (writtenAt layout level first
          ++ (writtenItems layout level items ++ (layout.gap outer ++ ']' :: rest)))
      = .ok (.list (read.reverse ++ first :: items), rest) := by
  obtain ⟨rounds, rfl⟩ := Nat.exists_eq_add_of_lt enough
  induction items generalizing first rounds read with
  | nil =>
    rw [readItems, readsBack first List.mem_cons_self, writtenItems, List.nil_append]
    simp [skipGaps_closing (show isGap ']' = false from rfl)]
  | cons second others ih =>
    rw [List.forall_mem_cons] at readsBack textual
    have behind : skipGaps (layout.gap level ++ (writtenAt layout level second
        ++ (writtenItems layout level others ++ (layout.gap outer ++ ']' :: rest))))
        = writtenAt layout level second ++ (writtenItems layout level others ++ (layout.gap outer ++ ']' :: rest)) := by
      rw [skipGaps_gap, skipGaps_writtenAt textual.1]
    rw [readItems, readsBack.1, writtenItems]
    simp only [List.cons_append, List.append_assoc, skipGaps_of_sign (show isGap ',' = false from rfl), behind]
    have more : (second :: others).length + rounds = others.length + rounds + 1 := by
      rw [List.length_cons]
      omega
    rw [more, ih readsBack.2 textual.2]
    · simp
    · omega

/-- A round of the reader takes a field whose name is new, and goes on behind a comma. -/
theorem readFields_field {limit : Nat} {name : String} {item : Json} {read others : List (String × Json)}
    (readsBack : ReadsBack value layout level item) (textual : item.IsTextual depth)
    (distinct : ((read ++ (name, item) :: others).map Prod.fst).Nodup) (short : (writtenText name).length ≤ limit)
    {behind after : List Char} {c : Char} (follows : skipGaps behind = c :: after) :
    let text := writtenText name ++ (layout.colon ++ (writtenAt layout level item ++ behind))
    (c = '}' → readFields value limit (rounds + 1) read text = .ok (.object (read ++ [(name, item)]), after)) ∧
      (c = ',' → readFields value limit (rounds + 1) read text
        = readFields value limit rounds (read ++ [(name, item)]) (skipGaps after)) := by
  intro text
  have new : name ∉ read.map Prod.fst := by
    rw [List.map_append, List.nodup_append] at distinct
    exact fun known => distinct.2.2 name known name List.mem_cons_self rfl
  have added : setField name item read = read ++ [(name, item)] := by
    rw [setField_eq_insertWith]
    exact insertWith.of_new new
  obtain ⟨afterColon, colon, gap⟩ := skipGaps_colon layout (writtenAt layout level item ++ behind)
  constructor <;>
  · rintro rfl
    simp only [text, writtenText_append]
    rw [readFields]
    simp only [readText_writtenText _ name short, colon, gap, skipGaps_writtenAt textual, readsBack behind, added,
      follows]

theorem readFields_written {limit : Nat} {name : String} {first : Json} {fields read : List (String × Json)}
    (readsBack : ∀ field ∈ (name, first) :: fields, ReadsBack value layout level field.2)
    (textual : ∀ field ∈ (name, first) :: fields, field.2.IsTextual depth)
    (distinct : ((read ++ (name, first) :: fields).map Prod.fst).Nodup)
    (short : ∀ field ∈ (name, first) :: fields, (writtenText field.1).length ≤ limit)
    (enough : fields.length < rounds) (rest : List Char) :
    readFields value limit rounds read
        (writtenText name ++ (layout.colon ++ (writtenAt layout level first
          ++ (writtenFields layout level fields ++ (layout.gap outer ++ '}' :: rest)))))
      = .ok (.object (read ++ (name, first) :: fields), rest) := by
  obtain ⟨rounds, rfl⟩ := Nat.exists_eq_add_of_lt enough
  induction fields generalizing name first read rounds with
  | nil =>
    rw [List.forall_mem_singleton] at readsBack textual short
    exact (readFields_field readsBack textual distinct short (skipGaps_closing rfl rest)).1 rfl
  | cons second others ih =>
    obtain ⟨other, item⟩ := second
    have more : ((other, item) :: others).length + rounds = others.length + rounds + 1 := by
      rw [List.length_cons]
      omega
    have parts : read ++ (name, first) :: (other, item) :: others
        = read ++ [(name, first)] ++ (other, item) :: others := by simp
    rw [List.forall_mem_cons] at readsBack textual short
    rw [parts, ← ih readsBack.2 textual.2 (parts ▸ distinct) short.2 rounds (by omega), writtenFields]
    simp only [List.cons_append, List.append_assoc]
    rw [(readFields_field readsBack.1 textual.1 distinct short.1 (skipGaps_of_sign rfl _)).2 rfl, skipGaps_gap,
      writtenText_append, skipGaps_of_sign rfl, more]

end Parts

section Lengths

variable (layout : Layout) (level : Nat)

theorem length_writtenItems (items : List Json) :
    items.length ≤ (writtenItems layout level items).length ∧
      ∀ item ∈ items, (writtenAt layout level item).length ≤ (writtenItems layout level items).length := by
  induction items with
  | nil => exact ⟨Nat.le_refl 0, List.forall_mem_nil _⟩
  | cons first rest ih =>
    simp only [writtenItems, List.length_cons, List.length_append, List.forall_mem_cons]
    refine ⟨by omega, by omega, fun item member => ?_⟩
    have := ih.2 item member
    omega

theorem length_writtenFields (fields : List (String × Json)) :
    fields.length ≤ (writtenFields layout level fields).length ∧
      ∀ field ∈ fields, (writtenText field.1).length ≤ (writtenFields layout level fields).length ∧
        (writtenAt layout level field.2).length ≤ (writtenFields layout level fields).length := by
  induction fields with
  | nil => exact ⟨Nat.le_refl 0, List.forall_mem_nil _⟩
  | cons first rest ih =>
    simp only [writtenFields, List.length_cons, List.length_append, List.forall_mem_cons]
    refine ⟨by omega, by omega, fun field member => ?_⟩
    have := ih.2 field member
    omega

end Lengths

section Values

variable {limit depth : Nat} {text : List Char}

theorem readValue_list (opens : (skipGaps text).head? ≠ some ']') :
    readValue limit (depth + 1) ('[' :: text) = readItems (readValue limit depth) limit [] (skipGaps text) := by
  rw [readValue]
  split
  · rename_i closes
    rw [closes] at opens
    exact absurd rfl opens
  · rfl

theorem readValue_object (opens : (skipGaps text).head? ≠ some '}') :
    readValue limit (depth + 1) ('{' :: text) = readFields (readValue limit depth) limit limit [] (skipGaps text) := by
  rw [readValue]
  split
  · rename_i closes
    rw [closes] at opens
    exact absurd rfl opens
  · rfl

/-- A value is read as it was written. The induction is on its levels, of which the reader has one less
inside a list or an object. -/
theorem readValue_writtenAt {json : Json} (textual : json.IsTextual depth) (layout : Layout) (level : Nat)
    (enough : (writtenAt layout level json).length ≤ limit) : ReadsBack (readValue limit depth) layout level json := by
  induction textual generalizing level with
  | null => exact fun rest => by simp [writtenAt, readValue, namedValues, show "null".length = 4 from rfl]
  | bool value =>
    intro rest
    cases value
    · simp [writtenAt, readValue, namedValues, show "false".length = 5 from rfl]
    · simp [writtenAt, readValue, namedValues, show "true".length = 4 from rfl]
  | string value =>
    intro rest
    rw [writtenAt, writtenText_append, readValue]
    simp only [readText_writtenText _ value enough]
  | @list depth items parts ih =>
    intro rest
    cases items with
    | nil => rfl
    | cons first others =>
      obtain ⟨count, lengths⟩ := length_writtenItems layout (level + 1) others
      simp only [writtenAt, List.length_cons, List.length_append, List.length_nil] at enough
      have readsBack : ∀ item ∈ first :: others, ReadsBack (readValue limit depth) layout (level + 1) item := by
        refine List.forall_mem_cons.mpr ⟨ih first List.mem_cons_self _ (by omega), fun item member => ?_⟩
        have := lengths item member
        exact ih item (.tail _ member) _ (by omega)
      rw [List.forall_mem_cons] at parts
      obtain ⟨c, chars, starts, -, opens, -⟩ := exists_start_writtenAt parts.1 layout (level + 1)
      simp only [writtenAt, List.cons_append, List.append_assoc, List.nil_append]
      rw [readValue_list] <;> rw [skipGaps_gap, skipGaps_writtenAt parts.1]
      · exact readItems_written readsBack parts.2 (by omega) [] rest
      · simp [starts, opens]
  | @object depth fields distinct parts ih =>
    intro rest
    cases fields with
    | nil => rfl
    | cons field others =>
      obtain ⟨name, first⟩ := field
      obtain ⟨count, lengths⟩ := length_writtenFields layout (level + 1) others
      simp only [writtenAt, List.length_cons, List.length_append, List.length_nil] at enough
      have readsBack : ∀ field ∈ (name, first) :: others,
          ReadsBack (readValue limit depth) layout (level + 1) field.2 := by
        refine List.forall_mem_cons.mpr ⟨ih _ List.mem_cons_self _ (by dsimp only; omega), fun field member => ?_⟩
        have := lengths field member
        exact ih field (.tail _ member) _ (by omega)
      have short : ∀ field ∈ (name, first) :: others, (writtenText field.1).length ≤ limit := by
        refine List.forall_mem_cons.mpr ⟨by dsimp only; omega, fun field member => ?_⟩
        have := lengths field member
        omega
      have starts (rest : List Char) : skipGaps (writtenText name ++ rest) = writtenText name ++ rest := by
        rw [writtenText_append, skipGaps_of_sign rfl]
      simp only [writtenAt, List.cons_append, List.append_assoc, List.nil_append]
      rw [readValue_object] <;> rw [skipGaps_gap, starts]
      · exact readFields_written readsBack parts distinct short (by omega) rest
      · simp [writtenText]

end Values

/-- A value is read back from the text that it is written as, in any layout and with blanks behind it. -/
theorem read_write {json : Json} {limit : Nat} (textual : json.IsTextual limit) (layout : Layout) {behind : List Char}
    (blank : ∀ c ∈ behind, isGap c = true) : read ((json.write layout).toList ++ behind) limit = .ok json := by
  have value := readValue_writtenAt textual layout 0
    (show _ ≤ (writtenAt layout 0 json ++ behind).length + 1 by rw [List.length_append]; omega) behind
  have nothing : skipGaps behind = [] := by
    rw [← List.append_nil behind, skipGaps_append blank]
    rfl
  obtain ⟨c, chars, starts, -, -, noMark⟩ := exists_start_writtenAt textual layout 0
  rw [write, String.toList_ofList, read]
  · rw [skipGaps_writtenAt textual, value]
    simp only [nothing]
  · rw [starts]
    rintro rest ⟨⟩
    exact noMark rfl

end FormHarvest.Json
