import FormHarvest.Proofs.BlankEnds

namespace FormHarvest

section Strings

variable {front back : List Char}

/-! ### Quoted texts and comments -/

theorem quotedLength_of_ne {quote c : Char} (plain : c ≠ '\\') (rest : List Char) :
    quotedLength quote (c :: rest) = if c == quote then 1 else quotedLength quote rest + 1 := by
  rw [quotedLength]
  exact fun _ _ same _ => plain same

theorem quotedLength_pos {quote : Char} {text : List Char} (filled : text ≠ []) : 0 < quotedLength quote text := by
  unfold quotedLength
  split
  · exact absurd rfl filled
  · omega
  · split <;> omega

/-- A backslash at the end of a part would take along what comes behind. -/
theorem ne_backslash_of_within {quote c : Char} {rest : List Char} (more : back ≠ [])
    (noEscape : ∀ (d : Char) (tail : List Char), c = '\\' → rest = d :: tail → False)
    (within : quotedLength quote (c :: rest ++ back) ≤ (c :: rest).length) : c ≠ '\\' := by
  rintro rfl
  obtain ⟨d, back, rfl⟩ := List.exists_cons_of_ne_nil more
  cases rest with
  | nil =>
    simp only [List.cons_append, List.nil_append, quotedLength, List.length_singleton] at within
    omega
  | cons d rest => exact noEscape d rest rfl rfl

/-- A quoted text that ends within a part of a text, before more of it, is closed there. -/
theorem quotedLength_append {quote : Char} (more : back ≠ [])
    (within : quotedLength quote (front ++ back) ≤ front.length) (text : List Char) :
    quotedLength quote (front ++ text) = quotedLength quote (front ++ back) := by
  fun_induction quotedLength quote front with
  | case1 => exact absurd (quotedLength_pos more) (Nat.not_lt.mpr within)
  | case2 c rest ih =>
    simp only [List.cons_append, quotedLength, List.length_cons] at within ⊢
    rw [ih (by omega)]
  | case3 c rest noEscape closes =>
    have plain := ne_backslash_of_within more noEscape within
    simp only [List.cons_append, quotedLength_of_ne plain, if_pos closes]
  | case4 c rest noEscape goesOn ih =>
    have plain := ne_backslash_of_within more noEscape within
    simp only [List.cons_append, quotedLength_of_ne plain, if_neg goesOn, List.length_cons] at within ⊢
    rw [ih (by omega)]

theorem blockCommentLength_pos {text : List Char} (filled : text ≠ []) : 0 < blockCommentLength text := by
  unfold blockCommentLength
  split
  · exact absurd rfl filled
  · omega
  · omega

theorem blockCommentLength_append_of_within (more : back ≠ [])
    (within : blockCommentLength (front ++ back) ≤ front.length) (text : List Char) :
    blockCommentLength (front ++ text) = blockCommentLength (front ++ back) := by
  fun_induction blockCommentLength front with
  | case1 => exact absurd (blockCommentLength_pos more) (Nat.not_lt.mpr within)
  | case2 rest => rfl
  | case3 c rest noEnd ih =>
    cases rest with
    | nil =>
      have := blockCommentLength_pos more
      rw [List.cons_append, List.nil_append, List.length_singleton] at within
      unfold blockCommentLength at within
      split at within <;> first | omega | simp_all
    | cons d rest =>
      have goesOn (tail : List Char) :
          blockCommentLength (c :: d :: rest ++ tail) = blockCommentLength (d :: rest ++ tail) + 1 := by
        simp only [List.cons_append]
        rw [blockCommentLength]
        rintro _ rfl same
        obtain ⟨rfl, -⟩ := List.cons.inj same
        exact noEnd rest rfl rfl
      rw [goesOn, List.length_cons] at within
      rw [goesOn, goesOn, ih (by omega)]

/-- Where a line comment ends, another text may follow, unless it begins like the rest of a closing tag. -/
theorem lineCommentLength_append {text : List Char}
    (ends : lineCommentLength (front ++ back) = front.length) (noTag : text.head? ≠ some '>') :
    lineCommentLength (front ++ text) = front.length + lineCommentLength text := by
  induction front with
  | nil => simp
  | cons c front ih =>
    simp only [List.cons_append, List.length_cons] at ends ⊢
    unfold lineCommentLength at ends
    split at ends
    · omega
    · omega
    · omega
    · rename_i noEnd noTag' same
      obtain ⟨rfl, rfl⟩ := List.cons.inj same
      have further := ih (by omega)
      rw [lineCommentLength, further]
      · omega
      · exact noEnd
      · rintro tail rfl same
        cases front with
        | nil => exact noTag (by rw [← List.nil_append text, same]; rfl)
        | cons d front =>
          obtain ⟨rfl, -⟩ := List.cons.inj same
          exact noTag' _ rfl rfl

end Strings

/-! ### Block texts -/

/-- A line opens a block text: a label, which may be quoted, and a line end. -/
structure OpensBlock (start : BlockStart) (line : List Char) : Prop where
  quote : start.quote = none ∨ start.quote = some '"' ∨ start.quote = some '\''
  label : ∃ c others, start.label = c :: others ∧ (c.isAlpha || c == '_') = true ∧ others.all isWord = true
  line : ∃ ends, (ends = ['\n'] ∨ ends = ['\r', '\n']) ∧
    line = start.quote.toList ++ (start.label ++ (start.quote.toList ++ ends))

/-- The quotation mark at the start of a text, if there is one. -/
def quoteAt? (text : List Char) : Option Char := text.head?.filter fun c => c == '"' || c == '\''

theorem quoteAt?_append_drop (text : List Char) :
    (quoteAt? text).toList ++ text.drop (if (quoteAt? text).isSome then 1 else 0) = text := by
  cases text with
  | nil => rfl
  | cons c text =>
    by_cases quote : (c == '"' || c == '\'') = true
    · simp [quoteAt?, Option.filter, quote]
    · simp [quoteAt?, Option.filter, quote]

theorem quoteAt?_cases (text : List Char) :
    quoteAt? text = none ∨ quoteAt? text = some '"' ∨ quoteAt? text = some '\'' := by
  cases found : quoteAt? text with
  | none => exact .inl rfl
  | some c =>
    obtain ⟨-, quote⟩ := Option.filter_eq_some_iff.mp found
    simpa using quote

theorem takeWhile_append_drop (p : Char → Bool) (text : List Char) :
    text.takeWhile p ++ text.drop (text.takeWhile p).length = text :=
  List.prefix_iff_eq_append.mp (List.takeWhile_prefix p)

theorem exists_opensBlock_of_blockStart? {text : List Char} {start : BlockStart}
    (opened : blockStart? text = some start) :
    ∃ spaces line rest, text = ['<', '<', '<'] ++ (spaces ++ (line ++ rest)) ∧
      (∀ c ∈ spaces, isSpaceOrTab c = true) ∧ OpensBlock start line ∧
      start.length = 3 + spaces.length + line.length := by
  obtain ⟨text, rfl⟩ := exists_of_blockStart? opened
  unfold blockStart? at opened
  rw [if_pos (by rfl)] at opened
  extract_lets spaces atQuote quote width atLabel at opened
  have blanks : text.takeWhile isSpaceOrTab ++ atQuote = text := by
    have behind : atQuote = text.drop (text.takeWhile isSpaceOrTab).length := by
      simp only [atQuote, Nat.add_comm 3 spaces]
      rfl
    rw [behind, takeWhile_append_drop]
  have parts : quote.toList ++ atLabel = atQuote := quoteAt?_append_drop atQuote
  have marks := quoteAt?_cases atQuote
  change quote = _ ∨ quote = _ ∨ quote = _ at marks
  have widths : width = quote.toList.length := by
    rcases marks with none_ | some_ | some_ <;> simp [width, *]
  have count : spaces = (text.takeWhile isSpaceOrTab).length := rfl
  clear_value spaces quote atLabel width atQuote
  split at opened
  · rename_i c rest
    split at opened
    · rename_i starts
      extract_lets label afterLabel length at opened
      have word : label ++ afterLabel = c :: rest := by
        simp only [label, afterLabel, List.cons_append, List.length_cons, List.drop_succ_cons, takeWhile_append_drop]
      split at opened
      · cases opened
      · rename_i sameQuote
        have closes : quote.toList ++ afterLabel.drop width = afterLabel := by
          rw [widths]
          cases quote with
          | none => rfl
          | some mark =>
            simp only [Option.isSome_some, Bool.true_and, bne_iff_ne, ne_eq, not_not] at sameQuote
            obtain ⟨behind, opens⟩ := List.head?_eq_some_iff.mp sameQuote
            rw [opens]
            rfl
        have spread (ends : List Char) {tail : List Char} (behind : afterLabel.drop width = ends ++ tail)
            (isEnd : ends = ['\n'] ∨ ends = ['\r', '\n']) (known : start = ⟨quote, label, length + ends.length⟩) :
            ∃ spaces line rest, '<' :: '<' :: '<' :: text = ['<', '<', '<'] ++ (spaces ++ (line ++ rest)) ∧
              (∀ c ∈ spaces, isSpaceOrTab c = true) ∧ OpensBlock start line ∧
              start.length = 3 + spaces.length + line.length := by
          refine ⟨text.takeWhile isSpaceOrTab, quote.toList ++ (label ++ (quote.toList ++ ends)), tail, ?_,
            fun c => List.mem_takeWhile_imp, ⟨known ▸ marks, ⟨c, rest.takeWhile isWord, known ▸ rfl, starts, ?_⟩,
              ⟨ends, isEnd, known ▸ rfl⟩⟩, ?_⟩
          · rw [behind] at closes
            conv_lhs => rw [← blanks, ← parts, ← word, ← closes]
            simp only [List.append_assoc]
            rfl
          · exact List.all_takeWhile
          · rw [known]
            simp only [length, List.length_append, widths, count]
            omega
        split at opened
        · exact spread ['\n'] ‹_› (.inl rfl) (Option.some.inj opened).symm
        · exact spread ['\r', '\n'] ‹_› (.inr rfl) (Option.some.inj opened).symm
        · cases opened
    · cases opened
  · cases opened

namespace OpensBlock

variable {start : BlockStart} {line : List Char}

theorem isSpaceOrTab_of_mem (opens : OpensBlock start line) {c : Char} (member : c ∈ line) :
    isSpaceOrTab c = false := by
  refine Bool.eq_false_iff.mpr fun space => ?_
  obtain ⟨-, -, -, -, -, noWord, -⟩ := not_part_of_isSpaceOrTab space
  have odd : c ≠ '"' ∧ c ≠ '\'' ∧ c ≠ '_' ∧ c ≠ '\n' ∧ c ≠ '\r' ∧ c.isAlpha = false := by
    obtain rfl | rfl := eq_of_isSpaceOrTab space <;> decide
  obtain ⟨marks, ⟨first, others, label, starts, goesOn⟩, ends, isEnd, rfl⟩ := opens
  have inMarks : c ∉ start.quote.toList := by
    rcases marks with none_ | mark | mark <;> simp [*]
  have inLabel : c ∉ start.label := by
    rw [label, List.mem_cons]
    rintro (rfl | inside)
    · simp [odd] at starts
    · rw [List.all_eq_true.mp goesOn c inside] at noWord
      cases noWord
  have inEnds : c ∉ ends := by
    rcases isEnd with rfl | rfl <;> simp [odd]
  simp only [List.mem_append] at member
  tauto

theorem exists_eq_cons (opens : OpensBlock start line) : ∃ c rest, line = c :: rest ∧ isSpaceOrTab c = false := by
  have filled : line ≠ [] := by
    obtain ⟨-, ⟨first, others, label, -⟩, ends, -, rfl⟩ := opens
    simp [label]
  obtain ⟨c, rest, rfl⟩ := List.exists_cons_of_ne_nil filled
  exact ⟨c, rest, rfl, opens.isSpaceOrTab_of_mem List.mem_cons_self⟩

theorem label_ne_nil (opens : OpensBlock start line) : start.label ≠ [] := by
  obtain ⟨first, others, label, -⟩ := opens.label
  simp [label]

theorem not_blank_of_mem_label (opens : OpensBlock start line) :
    ∀ c ∈ start.label, isSpaceOrTab c = false ∧ c ≠ '\n' := by
  intro c member
  refine ⟨opens.isSpaceOrTab_of_mem ?_, ?_⟩
  · obtain ⟨ends, -, rfl⟩ := opens.line
    simp [member]
  · rintro rfl
    obtain ⟨first, others, label, starts, goesOn⟩ := opens.label
    rw [label] at member
    rcases List.mem_cons.mp member with rfl | inside
    · revert starts; decide
    · exact absurd (List.all_eq_true.mp goesOn _ inside) (by decide)

/-- A line that opens a block text opens it behind any blanks and before any text. -/
theorem blockStart?_append (opens : OpensBlock start line) {spaces : List Char}
    (allBlank : ∀ c ∈ spaces, isSpaceOrTab c = true) (rest : List Char) :
    blockStart? (['<', '<', '<'] ++ (spaces ++ (line ++ rest))) =
      some { start with length := 3 + spaces.length + line.length } := by
  obtain ⟨c, others, parts, dark⟩ := opens.exists_eq_cons
  have blanks : ((['<', '<', '<'] ++ (spaces ++ (line ++ rest))).drop 3).takeWhile isSpaceOrTab = spaces :=
    takeWhile_append_stop (List.all_eq_true.mpr allBlank) (by simp [parts, dark])
  have atQuote : (['<', '<', '<'] ++ (spaces ++ (line ++ rest))).drop (3 + spaces.length) = line ++ rest := by
    rw [Nat.add_comm]
    exact List.drop_left
  obtain ⟨marks, ⟨first, word, label, starts, goesOn⟩, ends, isEnd, written⟩ := opens
  have unquoted : first ≠ '"' ∧ first ≠ '\'' := by
    constructor <;> rintro rfl <;> revert starts <;> decide
  have atEnd (mark : Char) (tail : List Char) (noWord : isWord mark = false) :
      (word ++ mark :: tail).takeWhile isWord = word := takeWhile_append_stop goesOn (by simpa using noWord)
  have noWord : isWord '\n' = false ∧ isWord '\r' = false ∧ isWord '"' = false ∧ isWord '\'' = false := by decide
  obtain ⟨quote, _, length⟩ := start
  dsimp only at label marks written ⊢
  unfold blockStart?
  rw [if_pos (by rfl), blanks]
  simp only [atQuote]
  rw [written, label]
  rcases marks with rfl | rfl | rfl <;> rcases isEnd with rfl | rfl <;>
    simp [starts, atEnd, noWord, unquoted, Option.filter_some] <;> omega

end OpensBlock

section Blocks

variable {front back blanks : List Char} {start : BlockStart}

/-- The line that opens a block text opens it before any text. -/
theorem blockStart?_append_of_within (opened : blockStart? (front ++ back) = some start)
    (within : start.length ≤ front.length) (text : List Char) : blockStart? (front ++ text) = some start := by
  obtain ⟨spaces, line, rest, parts, allBlank, opens, length⟩ := exists_opensBlock_of_blockStart? opened
  have whole : start.length = (['<', '<', '<'] ++ (spaces ++ line)).length := by
    simp only [length, List.length_append, List.length_cons, List.length_nil]
    omega
  have inText : ['<', '<', '<'] ++ (spaces ++ line) <+: front ++ back :=
    ⟨rest, by rw [parts]; simp only [List.append_assoc]⟩
  have inFront := List.prefix_of_prefix_length_le inText (List.prefix_append _ _) (whole ▸ within)
  obtain ⟨more, rfl⟩ := inFront
  have again := opens.blockStart?_append allBlank (more ++ text)
  simp only [List.append_assoc] at again ⊢
  rw [again, ← length]

/-- Blanks do not open a block text where none is opened without them. -/
theorem blockStart?_append_blanks (closed : blockStart? (front ++ back) = none) (filled : front ≠ [])
    (allBlank : ∀ c ∈ blanks, isSpaceOrTab c = true) : blockStart? (front ++ (blanks ++ back)) = none := by
  refine Option.eq_none_iff_forall_ne_some.mpr fun start opened => ?_
  obtain ⟨spaces, line, rest, parts, allBlankSpaces, opens, -⟩ := exists_opensBlock_of_blockStart? opened
  have noBlock {spaces : List Char} (allBlank : ∀ c ∈ spaces, isSpaceOrTab c = true) (rest : List Char) :
      front ++ back ≠ ['<', '<', '<'] ++ (spaces ++ (line ++ rest)) := by
    intro same
    rw [same, opens.blockStart?_append allBlank] at closed
    cases closed
  cases blanks with
  | nil => exact noBlock allBlankSpaces rest parts
  | cons blank blanks =>
  obtain ⟨space, otherBlanks⟩ := List.forall_mem_cons.mp allBlank
  have notInLine : blank ∉ line := fun member => by simpa [space] using opens.isSpaceOrTab_of_mem member
  -- the blanks stand behind the angle brackets
  have angles : ['<', '<', '<'] <+: front := by
    have inText : ['<', '<', '<'] <+: front ++ blank :: (blanks ++ back) := ⟨_, parts.symm⟩
    refine prefix_of_prefix_append (fun member => ?_) inText
    obtain rfl : blank = '<' := by simpa using member
    cases space
  obtain ⟨front, rfl⟩ := angles
  rw [List.append_assoc, List.append_cancel_left_eq] at parts
  simp only [List.append_assoc] at noBlock
  obtain ⟨c, others, isLine, dark⟩ := opens.exists_eq_cons
  rcases List.append_eq_append_iff.mp parts with ⟨behind, rfl, atBlank⟩ | ⟨behind, rfl, atLine⟩
  · -- the blanks stand among those behind the angle brackets
    obtain ⟨frontBlanks, behindBlanks⟩ := List.forall_mem_append.mp allBlankSpaces
    rcases List.append_eq_append_iff.mp atBlank with ⟨more, rfl, rfl⟩ | ⟨more, isBlanks, same⟩
    · have moreBlanks := (List.forall_mem_append.mp behindBlanks).2
      exact noBlock (List.forall_mem_append.mpr ⟨frontBlanks, moreBlanks⟩) rest (by simp only [List.append_assoc])
    · cases more with
      | nil => exact noBlock frontBlanks rest (by rw [same]; rfl)
      | cons d more =>
        rw [isLine] at same
        obtain rfl : c = d := (List.cons.inj same).1
        have := allBlank c (isBlanks ▸ List.mem_append_right _ List.mem_cons_self)
        rw [dark] at this
        cases this
  · -- the blanks stand behind the line
    rcases List.append_eq_append_iff.mp atLine with ⟨more, rfl, -⟩ | ⟨more, rfl, same⟩
    · exact noBlock allBlankSpaces (more ++ back) (by simp only [List.append_assoc])
    · cases more with
      | nil => exact noBlock allBlankSpaces back (by simp only [List.append_nil, List.append_assoc])
      | cons d more =>
        obtain rfl : blank = d := (List.cons.inj same).1
        exact absurd (List.mem_append_right _ List.mem_cons_self) notInLine

/-! ### The closing label -/

variable {label : List Char}

theorem exists_of_closingIndent? {line indent : List Char} (closes : closingIndent? label line = some indent) :
    ∃ after, line = indent ++ (label ++ after) ∧ (∀ c ∈ indent, isSpaceOrTab c = true) ∧
      after.head?.any isWord = false := by
  unfold closingIndent? at closes
  extract_lets blanks atLabel at closes
  obtain ⟨holds, same⟩ := Option.ite_none_right_eq_some.mp closes
  obtain rfl := Option.some.inj same
  rw [Bool.and_eq_true, List.isPrefixOf_iff_prefix] at holds
  obtain ⟨⟨after, parts⟩, ends⟩ := holds
  have whole := takeWhile_append_drop isSpaceOrTab line
  refine ⟨after, ?_, fun c => List.mem_takeWhile_imp, ?_⟩
  · rw [parts]
    exact whole.symm
  · rw [← parts, List.drop_left] at ends
    simpa using ends

/-- A label that closes a block text stands behind a line end, or at the start. -/
theorem exists_of_beforeClosing? {lineStart : Bool} {text body indent : List Char}
    (closes : beforeClosing? label lineStart text = some (body, indent)) :
    body <+: text ∧ (lineStart = true ∨ '\n' ∈ body) := by
  induction text generalizing lineStart body with
  | nil => cases closes
  | cons c text ih =>
    simp only [beforeClosing?] at closes
    split at closes
    · rename_i here
      cases closes
      refine ⟨List.nil_prefix, .inl ?_⟩
      cases lineStart with
      | true => rfl
      | false => cases here
    · obtain ⟨⟨inner, _⟩, found, same⟩ := Option.map_eq_some_iff.mp closes
      cases same
      obtain ⟨inText, opens⟩ := ih found
      refine ⟨List.cons_prefix_cons.mpr ⟨rfl, inText⟩, .inr ?_⟩
      rcases opens with lineEnd | inside
      · rw [beq_iff_eq.mp lineEnd]
        exact List.mem_cons_self
      · exact List.mem_cons_of_mem _ inside

section Label

variable (filled : label ≠ []) (dark : ∀ c ∈ label, isSpaceOrTab c = false ∧ c ≠ '\n')

include filled dark

theorem closingIndent?_label {indent after : List Char} (allBlank : ∀ c ∈ indent, isSpaceOrTab c = true)
    (ends : after.head?.any isWord = false) :
    closingIndent? label (indent ++ (label ++ after)) = some indent := by
  obtain ⟨c, others, rfl⟩ := List.exists_cons_of_ne_nil filled
  rw [closingIndent?_append allBlank (by simpa using (dark c List.mem_cons_self).1), List.drop_left, ends,
    if_pos (by simp [List.isPrefixOf_iff_prefix])]

theorem closingIndent?_append_of_within {blank : Char} {rest indent : List Char} (space : isSpaceOrTab blank = true)
    (closes : closingIndent? label (front ++ back) = some indent)
    (within : indent.length + label.length ≤ front.length) :
    closingIndent? label (front ++ blank :: rest) = some indent := by
  obtain ⟨after, parts, allBlank, ends⟩ := exists_of_closingIndent? closes
  have inText : indent ++ label <+: front ++ back := ⟨after, by rw [parts, List.append_assoc]⟩
  obtain ⟨more, rfl⟩ := List.prefix_of_prefix_length_le inText (List.prefix_append _ _)
    (by rw [List.length_append]; exact within)
  simp only [List.append_assoc, List.append_cancel_left_eq] at parts ⊢
  refine closingIndent?_label filled dark allBlank ?_
  cases more with
  | nil => simpa using (not_part_of_isSpaceOrTab space).2.2.2.2.2.1
  | cons c more =>
    rw [← parts] at ends
    simpa using ends

/-- Whether a label closes a block text on a line depends on that line. -/
theorem closingIndent?_line {line rest other : List Char} (open_ : closingIndent? label (line ++ '\n' :: rest) = none) :
    closingIndent? label (line ++ '\n' :: other) = none := by
  refine Option.eq_none_iff_forall_ne_some.mpr fun indent closes => ?_
  have whole : '\n' ∉ label := fun member => (dark _ member).2 rfl
  obtain ⟨blanks, after, rfl, allBlank, ends⟩ := opensWithLabel_of_closingIndent? whole closes
  have again : closingIndent? label (blanks ++ (label ++ (after ++ '\n' :: rest))) = some blanks :=
    closingIndent?_label filled dark allBlank (by
      cases after with
      | nil => simp [show isWord '\n' = false by decide]
      | cons c after => simpa using ends c rfl)
  simp only [List.append_assoc] at open_ again
  rw [open_] at again
  cases again

/-- The closing label of a block text ends before blanks, and blanks behind it do not close the text
earlier. -/
theorem beforeClosing?_append_of_within {blank : Char} {rest body indent : List Char} {lineStart : Bool}
    (space : isSpaceOrTab blank = true)
    (closes : beforeClosing? label lineStart (front ++ back) = some (body, indent))
    (within : body.length + indent.length + label.length ≤ front.length) :
    beforeClosing? label lineStart (front ++ blank :: rest) = some (body, indent) := by
  induction front generalizing lineStart body with
  | nil =>
    have := List.length_pos_iff.mpr filled
    simp only [List.length_nil] at within
    omega
  | cons c front ih =>
    simp only [List.cons_append, beforeClosing?] at closes ⊢
    split at closes
    · rename_i here
      cases closes
      cases lineStart with
      | false => cases here
      | true =>
        rw [if_pos rfl] at here ⊢
        have here : closingIndent? label (c :: front ++ blank :: rest) = some indent :=
          closingIndent?_append_of_within filled dark space here (by simpa using within)
        rw [List.cons_append] at here
        rw [here]
    · rename_i noLabel
      obtain ⟨⟨inner, _⟩, found, same⟩ := Option.map_eq_some_iff.mp closes
      obtain ⟨rfl, rfl⟩ := Prod.mk.inj same.symm
      have inside : inner.length + indent.length + label.length ≤ front.length := by
        simp only [List.length_cons] at within
        omega
      have stillNone :
          (if lineStart = true then closingIndent? label (c :: (front ++ blank :: rest)) else none) = none := by
        cases lineStart with
        | false => rfl
        | true =>
          rw [if_pos rfl] at noLabel ⊢
          obtain ⟨inText, opens⟩ := exists_of_beforeClosing? found
          have inFront : inner <+: front :=
            List.prefix_of_prefix_length_le inText (List.prefix_append _ _) (by omega)
          have lineEnd : '\n' ∈ c :: front := by
            rcases opens with lineEnd | member
            · rw [beq_iff_eq.mp lineEnd]
              exact List.mem_cons_self
            · exact List.mem_cons_of_mem _ (inFront.subset member)
          obtain ⟨line, more, parts⟩ := List.append_of_mem lineEnd
          rw [← List.cons_append, parts, List.append_assoc, List.cons_append] at noLabel ⊢
          exact closingIndent?_line filled dark noLabel
      rw [stillNone, ih found inside]
      rfl

end Label

end Blocks

/-! ### Pieces of code -/

/-- The next piece of code that is no closing tag, no block comment and no quoted text. -/
def scanOther (c : Char) (rest : List Char) : Except EscapeFault Scan :=
  if isBlank c then .ok ⟨(rest.takeWhile isBlank).length + 1, none, .php⟩
  else if (c == '#' && rest.head? != some '[') || ['/', '/'].isPrefixOf (c :: rest) then
    .ok ⟨lineCommentLength (c :: rest), none, .php⟩
  else
    match blockStart? (c :: rest) with
    | some start =>
      let (body, n) := blockText start (c :: rest)
      if start.quote == some '\'' then .ok ⟨n, some { kind := .string, text := body }, .php⟩
      else Scan.doubleQuoted n body
    | none => .ok (scanPlain (c :: rest))

/-- What a closing tag, a block comment or a quoted text begins with. -/
inductive OpensMarked : List Char → Prop
  | closeTag (rest : List Char) : OpensMarked ('?' :: '>' :: rest)
  | blockComment (rest : List Char) : OpensMarked ('/' :: '*' :: rest)
  | quoted {quote : Char} (rest : List Char) (isQuote : quote ∈ ['\'', '"', '\x60']) : OpensMarked (quote :: rest)

theorem scanPhp_other {c : Char} {rest : List Char} (other : ¬OpensMarked (c :: rest)) :
    scanPhp (c :: rest) = scanOther c rest := by
  rw [scanPhp]
  · rfl
  · rintro tail rfl rfl
    exact other (.closeTag tail)
  · rintro tail rfl rfl
    exact other (.blockComment tail)
  all_goals
    rintro rfl
    exact other (.quoted rest (by decide))

section Inserted

variable {front back blanks : List Char} {found : Scan}

theorem quotedBody_append {n : Nat} (short : n ≤ front.length) (text : List Char) :
    quotedBody n (front ++ text) = quotedBody n front := by
  simp only [quotedBody, List.take_append_of_le_length short]

theorem length_of_doubleQuoted {length : Nat} {body : List Char} (scanned : Scan.doubleQuoted length body = .ok found) :
    found.length = length := by
  unfold Scan.doubleQuoted at scanned
  cases known : doubleQuotedValue body with
  | error fault => rw [known] at scanned; cases scanned
  | ok value => rw [known] at scanned; cases scanned; rfl

theorem scanPhp_append_of_opensMarked (opens : OpensMarked (front ++ back)) (filled : front ≠ []) (more : back ≠ [])
    (scanned : scanPhp (front ++ back) = .ok found) (within : found.length ≤ front.length) (text : List Char) :
    scanPhp (front ++ text) = .ok found := by
  obtain ⟨c, front, rfl⟩ := List.exists_cons_of_ne_nil filled
  generalize whole : c :: front ++ back = source at opens scanned
  cases opens with
  | closeTag rest =>
    obtain ⟨rfl, same⟩ := List.cons.inj whole
    cases scanned
    cases front with
    | nil => exact absurd within (by decide)
    | cons d front =>
      obtain ⟨rfl, -⟩ := List.cons.inj same
      rfl
  | blockComment rest =>
    obtain ⟨rfl, same⟩ := List.cons.inj whole
    have length : found.length = blockCommentLength rest + 2 := by cases scanned; rfl
    cases front with
    | nil => simp only [length, List.length_singleton] at within; omega
    | cons d front =>
      obtain ⟨rfl, sameRest⟩ := List.cons.inj same
      obtain rfl : front ++ back = rest := sameRest
      have inside : blockCommentLength (front ++ back) ≤ front.length := by simpa [length] using within
      have sameHead : (front ++ text).head? = (front ++ back).head? := by
        cases front with
        | nil => exact absurd (blockCommentLength_pos more) (Nat.not_lt.mpr inside)
        | cons d front => rfl
      have taken (tail : List Char) : ('/' :: '*' :: front ++ tail).take (blockCommentLength (front ++ back) + 2) =
          ('/' :: '*' :: front).take (blockCommentLength (front ++ back) + 2) :=
        List.take_append_of_le_length (by simpa using inside)
      simp only [List.cons_append] at taken
      rw [← scanned]
      simp only [List.cons_append, scanPhp, blockCommentLength_append_of_within more inside text, sameHead, taken]
  | @quoted quote rest isQuote =>
    obtain ⟨rfl, same⟩ := List.cons.inj whole
    obtain rfl : front ++ back = rest := same
    have length : found.length = quotedLength c (front ++ back) + 1 := by
      simp only [List.mem_cons, List.not_mem_nil, or_false] at isQuote
      rcases isQuote with rfl | rfl | rfl
      · cases scanned; rfl
      · exact length_of_doubleQuoted scanned
      · cases scanned; rfl
    rw [length] at within
    have sameLength : quotedLength c (front ++ text) = quotedLength c (front ++ back) :=
      quotedLength_append more (by simpa using within) text
    have body (tail : List Char) : quotedBody (quotedLength c (front ++ back) + 1) (c :: front ++ tail)
        = quotedBody (quotedLength c (front ++ back) + 1) (c :: front) := quotedBody_append within tail
    simp only [List.cons_append] at body
    rw [← scanned]
    simp only [List.mem_cons, List.not_mem_nil, or_false] at isQuote
    rcases isQuote with rfl | rfl | rfl <;> simp only [List.cons_append, scanPhp, sameLength, body]

/-- Only the first two characters say whether something marked is opened, and no blank is among them. -/
theorem OpensMarked.congr {c : Char} {text other : List Char} (opens : OpensMarked (c :: text))
    (sameHead : ∀ d ∈ text.head?, isSpaceOrTab d = false → other.head? = some d) : OpensMarked (c :: other) := by
  generalize whole : c :: text = source at opens
  cases opens with
  | closeTag rest =>
    obtain ⟨rfl, rfl⟩ := List.cons.inj whole
    obtain ⟨rest, rfl⟩ := List.head?_eq_some_iff.mp (sameHead '>' rfl (by decide))
    exact .closeTag rest
  | blockComment rest =>
    obtain ⟨rfl, rfl⟩ := List.cons.inj whole
    obtain ⟨rest, rfl⟩ := List.head?_eq_some_iff.mp (sameHead '*' rfl (by decide))
    exact .blockComment rest
  | quoted rest isQuote =>
    obtain ⟨rfl, rfl⟩ := List.cons.inj whole
    exact .quoted other isQuote

/-- A block text that ends within a part of a text, before more of it, ends there before blanks. -/
theorem blockText_append_of_within {blank : Char} {rest : List Char} {start : BlockStart}
    (opened : blockStart? (front ++ back) = some start) (more : back ≠ []) (space : isSpaceOrTab blank = true)
    (within : (blockText start (front ++ back)).2 ≤ front.length) :
    start.length ≤ front.length ∧
      blockText start (front ++ blank :: rest) = blockText start (front ++ back) := by
  obtain ⟨-, line, -, -, -, opens, -⟩ := exists_opensBlock_of_blockStart? opened
  have filled := opens.label_ne_nil
  have dark := opens.not_blank_of_mem_label
  have longer : front.length < (front ++ back).length := by simpa using List.length_pos_iff.mpr more
  unfold blockText at within ⊢
  dsimp only at within ⊢
  cases closed : beforeClosing? start.label true ((front ++ back).drop start.length) with
  | none =>
    rw [closed] at within
    exact absurd within (Nat.not_le.mpr longer)
  | some found =>
    obtain ⟨body, indent⟩ := found
    rw [closed] at within
    dsimp only at within
    have inside : start.length ≤ front.length := by omega
    refine ⟨inside, ?_⟩
    rw [List.drop_append_of_le_length inside] at closed ⊢
    have behind : (front.drop start.length).length = front.length - start.length := List.length_drop
    rw [beforeClosing?_append_of_within filled dark space closed (by omega)]

theorem OpensMarked.of_append_blanks {c blank : Char} {rest : List Char} (space : isSpaceOrTab blank = true)
    (opens : OpensMarked (c :: (front ++ blank :: rest))) : OpensMarked (c :: (front ++ back)) := by
  refine opens.congr fun d first dark => ?_
  cases front with
  | nil =>
    obtain rfl : blank = d := by simpa using first
    rw [dark] at space
    cases space
  | cons e front => exact first

/-- A number sign before a bracket opens an attribute, and it is read together with the bracket. -/
theorem ne_hash_of_within {c : Char} (noComment : ¬((c == '#' && back.head? != some '[') ||
      ['/', '/'].isPrefixOf (c :: back)) = true) (scanned : scanOther c back = .ok found)
    (within : found.length ≤ 1) : c ≠ '#' := by
  rintro rfl
  have bracket : back.head? = some '[' := by simpa [List.isPrefixOf] using noComment
  obtain ⟨back, rfl⟩ := List.head?_eq_some_iff.mp bracket
  cases scanned
  have length : (scanPlain ('#' :: '[' :: back)).length = 2 := rfl
  exact absurd (length ▸ within) (by decide)

/-- Blanks open no line comment behind a piece of code. -/
theorem not_lineComment_append_blanks {c blank : Char} {rest : List Char} (space : isSpaceOrTab blank = true)
    (noComment : ¬((c == '#' && (front ++ back).head? != some '[') ||
      ['/', '/'].isPrefixOf (c :: (front ++ back))) = true)
    (scanned : scanOther c (front ++ back) = .ok found) (within : found.length ≤ (c :: front).length) :
    ¬((c == '#' && (front ++ blank :: rest).head? != some '[') ||
      ['/', '/'].isPrefixOf (c :: (front ++ blank :: rest))) = true := by
  cases front with
  | nil =>
    have noHash : c ≠ '#' := ne_hash_of_within noComment scanned within
    have slashes : ('/' == blank) = false := by
      obtain rfl | rfl := eq_of_isSpaceOrTab space <;> rfl
    simp [noHash, List.isPrefixOf, slashes]
  | cons d front => simpa [List.isPrefixOf] using noComment

theorem scanOther_append_blanks {c blank : Char} (more : back ≠ [])
    (allBlank : ∀ d ∈ blank :: blanks, isSpaceOrTab d = true) (scanned : scanOther c (front ++ back) = .ok found)
    (within : found.length ≤ (c :: front).length) (meaning : found.reading.isSome = true) :
    scanOther c (front ++ blank :: (blanks ++ back)) = .ok found := by
  have space := allBlank blank List.mem_cons_self
  have whole := scanned
  unfold scanOther at scanned ⊢
  split at scanned
  · cases scanned
    cases meaning
  rename_i dark
  rw [if_neg dark]
  split at scanned
  · cases scanned
    cases meaning
  rename_i noComment
  have stillNoComment : ¬((c == '#' && (front ++ blank :: (blanks ++ back)).head? != some '[') ||
      ['/', '/'].isPrefixOf (c :: (front ++ blank :: (blanks ++ back)))) = true :=
    not_lineComment_append_blanks space noComment whole within
  rw [if_neg stillNoComment]
  cases opened : blockStart? (c :: (front ++ back)) with
  | some start =>
    rw [opened] at scanned
    dsimp only at scanned
    have length : found.length = (blockText start (c :: (front ++ back))).2 := by
      split at scanned
      · cases scanned; rfl
      · exact length_of_doubleQuoted scanned
    obtain ⟨inside, same⟩ : start.length ≤ (c :: front).length ∧
        blockText start (c :: front ++ blank :: (blanks ++ back)) = blockText start (c :: front ++ back) :=
      blockText_append_of_within opened more space (length ▸ within)
    have stillOpened : blockStart? (c :: front ++ blank :: (blanks ++ back)) = some start :=
      blockStart?_append_of_within opened inside (blank :: (blanks ++ back))
    simp only [List.cons_append] at same stillOpened ⊢
    rw [stillOpened]
    dsimp only
    rw [same]
    exact scanned
  | none =>
    rw [opened] at scanned
    have closed : blockStart? (c :: front ++ (blank :: blanks ++ back)) = none :=
      blockStart?_append_blanks opened (List.cons_ne_nil _ _) allBlank
    simp only [List.cons_append] at closed
    rw [closed]
    cases scanned
    have plain : scanPlain (c :: front ++ blank :: (blanks ++ back)) = scanPlain (c :: front ++ back) :=
      readsToBlanks_scanPlain back space (List.cons_ne_nil _ _) within
    exact congrArg Except.ok plain

/-- A piece of code with a meaning, or a block comment, stays the same when blanks are put in behind it. -/
theorem scanPhp_append_blanks (filled : front ≠ []) (more : back ≠ [])
    (allBlank : ∀ c ∈ blanks, isSpaceOrTab c = true)
    (scanned : scanPhp (front ++ back) = .ok found) (within : found.length ≤ front.length)
    (ends : OpensMarked (front ++ back) ∨ found.reading.isSome) :
    scanPhp (front ++ (blanks ++ back)) = .ok found := by
  by_cases marked : OpensMarked (front ++ back)
  · exact scanPhp_append_of_opensMarked marked filled more scanned within _
  have meaning := ends.resolve_left marked
  cases blanks with
  | nil => exact scanned
  | cons blank blanks =>
  obtain ⟨c, front, rfl⟩ := List.exists_cons_of_ne_nil filled
  rw [List.cons_append] at marked scanned
  have stillOther : ¬OpensMarked (c :: (front ++ (blank :: blanks ++ back))) := fun opens =>
    marked (opens.of_append_blanks (allBlank blank List.mem_cons_self))
  rw [scanPhp_other marked] at scanned
  rw [List.cons_append, scanPhp_other stillOther]
  exact scanOther_append_blanks more allBlank scanned within meaning

end Inserted

end FormHarvest
