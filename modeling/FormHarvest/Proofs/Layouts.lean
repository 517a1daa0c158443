import FormHarvest.Proofs.InsertedBlanks
import FormHarvest.Run.Basic

namespace FormHarvest

/-! ### Opening tags -/

/-- Whether the word of an opening tag stands at the start of a text. -/
def opensPhp (text : List Char) : Bool :=
  (text.take 3).map Char.toLower == ['p', 'h', 'p'] && !(text.drop 3).head?.any isWord

theorem openTagLength?_mark (text : List Char) :
    openTagLength? ('<' :: '?' :: text) =
      if opensPhp text then some 5
      else if text.head? == some '=' then some 3
      else if text.head?.any isLetterLike then none
      else some 2 := rfl

theorem openTagLength?_eq_none {c d : Char} (noMark : ¬(c = '<' ∧ d = '?')) (text : List Char) :
    openTagLength? (c :: d :: text) = none := by
  unfold openTagLength?
  split
  · rename_i same
    obtain ⟨sameFirst, same⟩ := List.cons.inj same
    exact absurd ⟨sameFirst, (List.cons.inj same).1⟩ noMark
  · rfl

theorem isLetterLike_of_toLower {c : Char} (lower : c.toLower = 'p') : isLetterLike c = true := by
  have letter : c.isAlpha = true := by
    unfold Char.toLower at lower
    split at lower
    · rename_i upper
      rw [Char.isAlpha, Bool.or_eq_true]
      exact .inl (by simpa [Char.isUpper] using upper)
    · rw [lower]
      decide
  simp [isLetterLike, letter]

theorem opensPhp_eq_false {c : Char} (noLetter : isLetterLike c = false) (text : List Char) :
    opensPhp (c :: text) = false := by
  have other : c.toLower ≠ 'p' := fun lower => by
    rw [isLetterLike_of_toLower lower] at noLetter
    cases noLetter
  simp [opensPhp, other]

/-- An opening tag has two characters or more. -/
theorem two_le_of_openTagLength? {text : List Char} {n : Nat} (found : openTagLength? text = some n) : 2 ≤ n := by
  unfold openTagLength? at found
  split at found
  · dsimp only at found
    split at found
    · cases found; decide
    · split at found
      · cases found; decide
      · split at found <;> cases found
        decide
  · cases found

section Tags

variable {front back rest : List Char} {blank : Char}

/-- An opening tag that ends within a part of a text ends there before a blank. -/
theorem openTagLength?_append_of_within {n : Nat} (space : isSpaceOrTab blank = true)
    (found : openTagLength? (front ++ back) = some n) (within : n ≤ front.length) :
    openTagLength? (front ++ blank :: rest) = some n := by
  obtain ⟨-, -, -, -, -, noWord, noLetter⟩ := not_part_of_isSpaceOrTab space
  have long := two_le_of_openTagLength? found
  match front with
  | [] | [_] => exact absurd (le_trans long within) (by simp)
  | c :: d :: front =>
    by_cases mark : c = '<' ∧ d = '?'
    · obtain ⟨rfl, rfl⟩ := mark
      simp only [List.cons_append, openTagLength?_mark, List.length_cons] at found within ⊢
      split at found
      · rename_i word
        cases found
        match front with
        | [] | [_] | [_, _] => simp at within
        | e :: f :: g :: front =>
          have still : opensPhp (e :: f :: g :: front ++ blank :: rest) = true := by
            cases front with
            | nil => simpa [opensPhp, noWord] using (by simpa [opensPhp] using word : _ ∧ _).1
            | cons h front => exact word
          rw [if_pos still]
      · split at found
        · rename_i equals
          cases found
          match front with
          | [] => simp at within
          | c :: front =>
            obtain rfl : c = '=' := by simpa using equals
            rw [if_neg (by rw [List.cons_append, opensPhp_eq_false (by decide)]; decide)]
            rfl
        · rename_i noEquals
          split at found
          · cases found
          · rename_i noLetters
            cases found
            match front with
            | [] =>
              have dark : blank ≠ '=' := by obtain rfl | rfl := eq_of_isSpaceOrTab space <;> decide
              simp [opensPhp_eq_false noLetter, noLetter, dark]
            | c :: front =>
              have plain : isLetterLike c = false := by simpa using noLetters
              have noEqual : c ≠ '=' := by simpa using noEquals
              simp [opensPhp_eq_false plain, plain, noEqual]
    · rw [List.cons_append, List.cons_append, openTagLength?_eq_none mark] at found
      cases found

/-- Whether a tag opens is known from what stands before the next angle bracket. -/
theorem openTagLength?_append_angle (filled : front ≠ []) (text other : List Char) :
    openTagLength? (front ++ '<' :: text) = openTagLength? (front ++ '<' :: other) := by
  match front with
  | [] => exact absurd rfl filled
  | [c] => simp [openTagLength?_eq_none]
  | c :: d :: front =>
    by_cases mark : c = '<' ∧ d = '?'
    · obtain ⟨rfl, rfl⟩ := mark
      have lower : Char.toLower '<' = '<' := by decide
      have sameWord : opensPhp (front ++ '<' :: text) = opensPhp (front ++ '<' :: other) := by
        match front with
        | [] | [_] | [_, _] => simp [opensPhp, lower]
        | [_, _, _] => rfl
        | _ :: _ :: _ :: _ :: _ => rfl
      have sameHead : (front ++ '<' :: text).head? = (front ++ '<' :: other).head? := by
        cases front <;> rfl
      simp only [List.cons_append, openTagLength?_mark, sameWord, sameHead]
    · simp only [List.cons_append, openTagLength?_eq_none mark]

theorem exists_angle_of_openTagLength? {text : List Char} (opens : (openTagLength? text).isSome) :
    ∃ rest, text = '<' :: rest := by
  unfold openTagLength? at opens
  split at opens
  · exact ⟨_, rfl⟩
  · cases opens

/-- The page goes on to the next opening tag. -/
theorem openTagLength?_drop_htmlLength {text : List Char} (more : text.drop (htmlLength text) ≠ []) :
    (openTagLength? (text.drop (htmlLength text))).isSome := by
  fun_induction htmlLength text with
  | case1 => exact absurd rfl more
  | case2 c rest opens => exact opens
  | case3 c rest noTag ih => exact ih more

/-- The page before a tag is the same before another text that begins with a tag. -/
theorem htmlLength_append {text other : List Char} (ends : htmlLength (front ++ text) = front.length)
    (opens : (openTagLength? text).isSome) (otherOpens : (openTagLength? other).isSome) :
    htmlLength (front ++ other) = front.length := by
  obtain ⟨text, rfl⟩ := exists_angle_of_openTagLength? opens
  obtain ⟨other, rfl⟩ := exists_angle_of_openTagLength? otherOpens
  induction front with
  | nil => simp [htmlLength, otherOpens]
  | cons c front ih =>
    have same := openTagLength?_append_angle (List.cons_ne_nil c front) text other
    simp only [List.cons_append, htmlLength, List.length_cons] at ends same ⊢
    split at ends
    · omega
    · rename_i noTag
      rw [same] at noTag
      rw [if_neg noTag, ih (by omega)]

end Tags

/-! ### Silent pieces -/

section Silent

variable {raw rest : List Char} {found : Scan}

theorem not_opensMarked {c : Char} {text : List Char} (noQuote : c ∉ ['\'', '"', '\x60'])
    (noMark : ∀ d ∈ text.head?, ¬(c = '?' ∧ d = '>') ∧ ¬(c = '/' ∧ d = '*')) : ¬OpensMarked (c :: text) := by
  generalize whole : c :: text = source
  intro opens
  cases opens with
  | closeTag rest => obtain ⟨rfl, rfl⟩ := List.cons.inj whole; exact (noMark '>' rfl).1 ⟨rfl, rfl⟩
  | blockComment rest => obtain ⟨rfl, rfl⟩ := List.cons.inj whole; exact (noMark '*' rfl).2 ⟨rfl, rfl⟩
  | quoted rest isQuote => obtain ⟨rfl, -⟩ := List.cons.inj whole; exact noQuote isQuote

theorem not_opensMarked_of_isBlank {c : Char} (blank : isBlank c = true) (text : List Char) :
    ¬OpensMarked (c :: text) := by
  have odd : ['?', '/', '\'', '"', '\x60'].all (fun d => !isBlank d) = true := by decide
  have other {d : Char} (member : d ∈ ['?', '/', '\'', '"', '\x60']) : c ≠ d := by
    rintro rfl
    simpa [blank] using List.all_eq_true.mp odd c member
  refine not_opensMarked ?_ fun d _ => ⟨fun same => other (by decide) same.1, fun same => other (by decide) same.1⟩
  exact fun isQuote => other (List.mem_cons_of_mem _ (List.mem_cons_of_mem _ isQuote)) rfl

theorem scanPhp_of_isBlank {c : Char} (blank : isBlank c = true) (text : List Char) :
    scanPhp (c :: text) = .ok ⟨(text.takeWhile isBlank).length + 1, none, .php⟩ := by
  rw [scanPhp_other (not_opensMarked_of_isBlank blank text), scanOther, if_pos blank]

/-- Blanks are one piece, up to what is none. -/
theorem scanPhp_blanks (filled : raw ≠ []) (allBlank : ∀ c ∈ raw, isBlank c = true)
    (dark : ∀ c ∈ rest.head?, isBlank c = false) : scanPhp (raw ++ rest) = .ok ⟨raw.length, none, .php⟩ := by
  obtain ⟨c, raw, rfl⟩ := List.exists_cons_of_ne_nil filled
  obtain ⟨blank, others⟩ := List.forall_mem_cons.mp allBlank
  rw [List.cons_append, scanPhp_of_isBlank blank, takeWhile_append_stop (List.all_eq_true.mpr others) dark,
    List.length_cons]

theorem head?_of_takeWhile_append {p : Char → Bool} (length : ((raw ++ rest).takeWhile p).length = raw.length) :
    ∀ c ∈ rest.head?, p c = false := by
  induction raw with
  | nil =>
    intro c first
    obtain ⟨rest, rfl⟩ := List.head?_eq_some_iff.mp first
    refine Bool.eq_false_iff.mpr fun holds => ?_
    simp [holds] at length
  | cons d raw ih =>
    rw [List.cons_append, List.takeWhile_cons] at length
    split at length
    · exact ih (Nat.succ.inj length)
    · cases length

theorem dark_of_scanPhp (filled : raw ≠ []) (allBlank : ∀ c ∈ raw, isBlank c = true)
    (scanned : scanPhp (raw ++ rest) = .ok found) (length : found.length = raw.length) :
    ∀ c ∈ rest.head?, isBlank c = false := by
  obtain ⟨c, raw, rfl⟩ := List.exists_cons_of_ne_nil filled
  rw [List.cons_append, scanPhp_of_isBlank (allBlank c List.mem_cons_self)] at scanned
  cases scanned
  exact head?_of_takeWhile_append (Nat.succ.inj length)

/-- What opens a line comment, in front of what follows it. -/
def OpensLine (raw rest : List Char) : Prop :=
  (∃ body, raw = '#' :: body ∧ (body ++ rest).head? ≠ some '[') ∨ ['/', '/'] <+: raw

theorem scanPhp_lineComment (opens : OpensLine raw rest) :
    scanPhp (raw ++ rest) = .ok ⟨lineCommentLength (raw ++ rest), none, .php⟩ := by
  have odd : isBlank '#' = false ∧ isBlank '/' = false := by decide
  rcases opens with ⟨body, rfl, noBracket⟩ | ⟨body, rfl⟩
  · have other : ¬OpensMarked ('#' :: (body ++ rest)) := not_opensMarked (by decide) (by simp)
    rw [List.cons_append, scanPhp_other other, scanOther, if_neg (by simp [odd]), if_pos]
    simp only [bne_iff_ne.mpr noBracket, beq_self_eq_true, Bool.and_self, Bool.true_or]
  · have other : ¬OpensMarked ('/' :: ('/' :: (body ++ rest))) := not_opensMarked (by decide) (by simp)
    simp only [List.cons_append, List.nil_append]
    rw [scanPhp_other other, scanOther, if_neg (by simp [odd]), if_pos (by simp)]

theorem lineCommentLength_blanks {blanks : List Char} (allBlank : ∀ c ∈ blanks, isSpaceOrTab c = true) :
    lineCommentLength blanks = blanks.length := by
  induction blanks with
  | nil => rfl
  | cons c blanks ih =>
    obtain ⟨blank, others⟩ := List.forall_mem_cons.mp allBlank
    have odd : c ≠ '\n' ∧ c ≠ '?' := by obtain rfl | rfl := eq_of_isSpaceOrTab blank <;> decide
    rw [lineCommentLength, ih others, List.length_cons]
    · exact odd.1
    · exact fun _ same _ => odd.2 same

/-- A line comment ends here. -/
def EndsLine (text : List Char) : Prop := text.head? = some '\n' ∨ ['?', '>'] <+: text

theorem lineCommentLength_of_endsLine {text : List Char} (ends : EndsLine text) : lineCommentLength text = 0 := by
  rcases ends with lineEnd | ⟨rest, rfl⟩
  · obtain ⟨rest, rfl⟩ := List.head?_eq_some_iff.mp lineEnd
    rfl
  · rfl

theorem head?_ne_of_endsLine {text : List Char} (ends : EndsLine text) : text.head? ≠ some '>' := by
  rcases ends with lineEnd | ⟨rest, rfl⟩
  · rw [lineEnd]; decide
  · simp

/-- Silent code is blank, a line comment or a block comment, if more comes behind it. -/
theorem Silent.cases_of_more (silent : Silent raw rest) (more : rest ≠ []) :
    (∀ c ∈ raw, isBlank c = true) ∨ OpensLine raw rest ∧ EndsLine rest ∨ OpensMarked (raw ++ rest) := by
  cases silent with
  | blanks _ blank => exact .inl blank
  | line opens _ _ ends => exact .inr (.inl ⟨opens, ends.resolve_left more⟩)
  | block => exact .inr (.inr (.blockComment _))
  | unclosed => exact absurd rfl more

end Silent

/-! ### Pieces -/

/-- A first piece and the pieces behind it. -/
theorem exists_scan_of_piecesFrom {mode : SourceMode} {text : List Char} {piece : Piece} {others : List Piece}
    (read : piecesFrom mode text = .ok (piece :: others)) (more : others ≠ []) :
    ∃ found, scan mode text = .ok found ∧ found.length = piece.raw.length ∧ found.reading = piece.reading ∧
      text = piece.raw ++ others.flatMap (·.raw) ∧ piecesFrom found.mode (others.flatMap (·.raw)) = .ok others ∧
      piece.raw ≠ [] ∧ Scan.Fits mode text found := by
  have whole := flatMap_raw_piecesFrom read
  cases text with
  | nil => rw [piecesFrom] at read; cases read
  | cons c rest =>
    rw [piecesFrom] at read
    cases scanned : scan mode (c :: rest) with
    | error fault => rw [scanned] at read; cases read
    | ok found =>
      rw [scanned] at read
      dsimp only at read
      cases further : piecesFrom found.mode (rest.drop (found.length - 1)) with
      | error fault => rw [further] at read; cases read
      | ok pieces =>
        rw [further] at read
        cases read
        have behind := flatMap_raw_piecesFrom further
        have fits := Scan.Fits.of_scan scanned
        have takes := fits.takes
        have left : rest.drop (found.length - 1) ≠ [] := fun nothing => by
          rw [nothing, piecesFrom] at further
          cases further
          exact more rfl
        have short : found.length - 1 < rest.length := by
          by_contra long
          exact left (List.drop_eq_nil_of_le (Nat.not_lt.mp long))
        refine ⟨found, rfl, ?_, rfl, whole.symm, behind ▸ further, List.cons_ne_nil _ _, fits⟩
        rw [List.length_cons, List.length_take]
        omega

/-- A piece of code with a meaning. -/
def Piece.IsCode (piece : Piece) : Prop :=
  ∃ reading, piece.reading = some reading ∧ reading.kind ≠ .openTag ∧ reading.kind ≠ .inlineHtml

/-- Pieces as they are written. -/
def rawText (pieces : List Piece) : List Char := pieces.flatMap (·.raw)

theorem rawText_append (front back : List Piece) : rawText (front ++ back) = rawText front ++ rawText back :=
  List.flatMap_append

section Inserted

variable {front back : List Piece} {piece : Piece} {blanks text : List Char}

/-- A piece of code with a meaning is read as code, and begins with what is no blank. -/
theorem dark_of_isCode {mode : SourceMode} (inCode : piece.IsCode)
    (read : piecesFrom mode text = .ok (piece :: back)) :
    mode = .php ∧ text ≠ [] ∧ (∀ c ∈ text.head?, isBlank c = false) ∧ text.head? ≠ some '\n' := by
  obtain ⟨reading, isRead, noTag, noPage⟩ := inCode
  cases text with
  | nil => rw [piecesFrom] at read; cases read
  | cons c rest =>
    rw [piecesFrom] at read
    cases scanned : scan mode (c :: rest) with
    | error fault => rw [scanned] at read; cases read
    | ok found =>
      have same : found.reading = some reading := by
        rw [scanned] at read
        dsimp only at read
        split at read <;> cases read
        exact isRead
      have isCode : mode = .php := by
        cases mode with
        | php => rfl
        | html =>
          cases scanned
          unfold scanHtml at same
          split at same
          · cases same; exact absurd rfl noTag
          · cases same; exact absurd rfl noPage
      subst isCode
      have dark : isBlank c = false := by
        refine Bool.eq_false_iff.mpr fun blank => ?_
        have silent : scan .php (c :: rest) = _ := scanPhp_of_isBlank blank rest
        rw [scanned] at silent
        cases silent
        cases same
      refine ⟨rfl, List.cons_ne_nil _ _, by simpa using dark, fun lineEnd => ?_⟩
      obtain rfl : c = '\n' := by simpa using lineEnd
      revert dark
      decide

theorem closeTag_of_piecesFrom {rest : List Char} {others : List Piece} (more : others ≠ [])
    (read : piecesFrom .php ('?' :: '>' :: rest) = .ok (piece :: others)) : ∃ tail, piece.raw = '?' :: '>' :: tail := by
  obtain ⟨found, scanned, length, -, whole, -⟩ := exists_scan_of_piecesFrom read more
  cases scanned
  match raw : piece.raw with
  | [] | [_] => simp [raw] at length
  | c :: d :: tail =>
    simp only [raw, List.cons_append, List.cons.injEq] at whole
    obtain ⟨rfl, rfl, -⟩ := whole
    exact ⟨tail, rfl⟩

theorem rawText_ne_nil {mode : SourceMode} (filled : front ≠ [])
    (read : piecesFrom mode text = .ok (front ++ piece :: back)) : rawText front ≠ [] := by
  obtain ⟨first, front, rfl⟩ := List.exists_cons_of_ne_nil filled
  obtain ⟨-, -, -, -, -, -, someRaw, -⟩ := exists_scan_of_piecesFrom read (by simp)
  simp [rawText, someRaw]

theorem head?_rawText_append {mode : SourceMode} (ahead : front ≠ [])
    (read : piecesFrom mode (rawText (front ++ piece :: back)) = .ok (front ++ piece :: back)) :
    (rawText front ++ (blanks ++ rawText (piece :: back))).head? = (rawText (front ++ piece :: back)).head? := by
  have someRaw := rawText_ne_nil ahead read
  rw [rawText_append, List.head?_append_of_ne_nil _ someRaw, List.head?_append_of_ne_nil _ someRaw]

/-- A page goes on to a tag, which is the piece behind it. -/
theorem openTagLength?_behind_page {page rest : List Char} {tag : Piece} {others : List Piece} (more : others ≠ [])
    (length : htmlLength (page ++ rest) = page.length)
    (further : piecesFrom .html rest = .ok (tag :: others)) : openTagLength? rest = some tag.raw.length := by
  obtain ⟨found, scanned, sameLength, -, whole, -, someTag, -⟩ := exists_scan_of_piecesFrom further more
  have behind : (page ++ rest).drop (htmlLength (page ++ rest)) = rest := by
    rw [length, List.drop_left]
  have someRest : rest ≠ [] := by
    rw [whole]
    simp [someTag]
  have opens : (openTagLength? ((page ++ rest).drop (htmlLength (page ++ rest)))).isSome :=
    openTagLength?_drop_htmlLength (by rwa [behind])
  rw [behind] at opens
  obtain ⟨n, opened⟩ := Option.isSome_iff_exists.mp opens
  cases scanned
  rw [opened, ← sameLength]
  simp only [scanHtml, opened, Scan.verbatim]

variable (filled : blanks ≠ []) (allBlank : ∀ c ∈ blanks, isSpaceOrTab c = true)

include filled allBlank

/-- The tag that pieces begin with stays the same when blanks are put in behind it. -/
theorem openTagLength?_append_blanks {tag : Piece}
    (opened : openTagLength? (tag.raw ++ rawText (front ++ piece :: back)) = some tag.raw.length) :
    openTagLength? (tag.raw ++ (rawText front ++ (blanks ++ rawText (piece :: back)))) = some tag.raw.length := by
  obtain ⟨blank, blanks, rfl⟩ := List.exists_cons_of_ne_nil filled
  rw [rawText_append, ← List.append_assoc] at opened
  rw [← List.append_assoc]
  exact openTagLength?_append_of_within (allBlank blank List.mem_cons_self) opened (by simp)

/-- A piece of the page, or the tag behind it, stays the same when blanks are put in before a piece of code. -/
theorem scanHtml_append_blanks {first : Piece} (inCode : piece.IsCode) (someRaw : first.raw ≠ [])
    (length : (scanHtml (first.raw ++ rawText (front ++ piece :: back))).length = first.raw.length)
    (further : piecesFrom (scanHtml (first.raw ++ rawText (front ++ piece :: back))).mode
      (rawText (front ++ piece :: back)) = .ok (front ++ piece :: back)) :
    scanHtml (first.raw ++ (rawText front ++ (blanks ++ rawText (piece :: back)))) =
      scanHtml (first.raw ++ rawText (front ++ piece :: back)) := by
  have taken (text : List Char) : (first.raw ++ text).take first.raw.length = first.raw := List.take_left
  unfold scanHtml at length further ⊢
  cases tag : openTagLength? (first.raw ++ rawText (front ++ piece :: back)) with
  | some n =>
    rw [tag] at length
    obtain rfl : n = first.raw.length := length
    rw [openTagLength?_append_blanks filled allBlank tag]
    simp only [Scan.verbatim, taken]
  | none =>
    rw [tag] at length further
    replace length : htmlLength (first.raw ++ rawText (front ++ piece :: back)) = first.raw.length := length
    dsimp only at further
    cases front with
    | nil => cases (dark_of_isCode inCode further).1
    | cons second front =>
      -- the page goes on to a tag, which is not touched
      have opened := openTagLength?_behind_page (by simp) length further
      have stillOpened := openTagLength?_append_blanks filled allBlank
        (show openTagLength? (second.raw ++ rawText (front ++ piece :: back)) = _ from opened)
      have opens := Option.isSome_of_eq_some opened
      have stillOpens := Option.isSome_of_eq_some stillOpened
      obtain ⟨text, isText⟩ := exists_angle_of_openTagLength? opens
      obtain ⟨other, isOther⟩ := exists_angle_of_openTagLength? stillOpens
      have whole : rawText (second :: front) ++ (blanks ++ rawText (piece :: back))
          = second.raw ++ (rawText front ++ (blanks ++ rawText (piece :: back))) := List.append_assoc ..
      have stillNone :
          openTagLength? (first.raw ++ (second.raw ++ (rawText front ++ (blanks ++ rawText (piece :: back))))) = none := by
        rw [isOther, openTagLength?_append_angle someRaw other text, ← isText, tag]
      rw [whole, stillNone]
      dsimp only
      rw [length, htmlLength_append length opens stillOpens, taken, taken]

omit filled in
/-- A piece of code with pieces between it and the blanks stays the same. -/
theorem scanPhp_append_blanks_behind {first : Piece} {found : Scan} (someRaw : first.raw ≠ [])
    (scanned : scanPhp (first.raw ++ rawText (front ++ piece :: back)) = .ok found)
    (length : found.length = first.raw.length)
    (silent : found.reading = none → found.mode = .php ∧ Silent first.raw (rawText (front ++ piece :: back)))
    (further : piecesFrom found.mode (rawText (front ++ piece :: back)) = .ok (front ++ piece :: back))
    (ahead : front ≠ []) (some_ : rawText (piece :: back) ≠ []) :
    scanPhp (first.raw ++ (rawText front ++ (blanks ++ rawText (piece :: back)))) = .ok found := by
  have sameHead : (rawText front ++ (blanks ++ rawText (piece :: back))).head?
      = (rawText (front ++ piece :: back)).head? := head?_rawText_append ahead further
  have general (ends : OpensMarked (first.raw ++ rawText (front ++ piece :: back)) ∨ found.reading.isSome) :
      scanPhp (first.raw ++ (rawText front ++ (blanks ++ rawText (piece :: back)))) = .ok found := by
    rw [rawText_append, ← List.append_assoc] at scanned ends
    rw [← List.append_assoc]
    exact scanPhp_append_blanks (by simp [someRaw]) some_ allBlank scanned (by simp [length]) ends
  cases meaning : found.reading with
  | some reading => exact general (.inr (by rw [meaning]; rfl))
  | none =>
    obtain ⟨isCode, silent⟩ := silent meaning
    have more : rawText (front ++ piece :: back) ≠ [] := by simp [rawText_append, some_]
    rcases silent.cases_of_more more with blank | ⟨opens, ends⟩ | marked
    · rw [← scanned, scanPhp_blanks someRaw blank (dark_of_scanPhp someRaw blank scanned length)]
      refine scanPhp_blanks someRaw blank ?_
      rw [sameHead]
      exact dark_of_scanPhp someRaw blank scanned length
    · have known := scanPhp_lineComment opens
      rw [known] at scanned
      cases scanned
      replace length : lineCommentLength (first.raw ++ rawText (front ++ piece :: back)) = first.raw.length := length
      have stillOpens : OpensLine first.raw (rawText front ++ (blanks ++ rawText (piece :: back))) := by
        refine opens.imp_left fun ⟨body, isBody, noBracket⟩ => ⟨body, isBody, ?_⟩
        cases body with
        | nil => rw [List.nil_append, sameHead]; exact noBracket
        | cons c body => exact noBracket
      have stillEnds : EndsLine (rawText front ++ (blanks ++ rawText (piece :: back))) := by
        refine ends.imp (fun lineEnd => sameHead.trans lineEnd) fun tag => ?_
        obtain ⟨rest, atTag⟩ := tag
        obtain ⟨second, front, rfl⟩ := List.exists_cons_of_ne_nil ahead
        rw [← atTag] at further
        obtain ⟨tail, isTag⟩ := closeTag_of_piecesFrom (by simp) further
        simp [rawText, isTag]
      rw [scanPhp_lineComment stillOpens, lineCommentLength_append length (head?_ne_of_endsLine stillEnds),
        lineCommentLength_of_endsLine stillEnds, length, Nat.add_zero]
    · exact general (.inl marked)

/-- Directly before the blanks a piece of code stays the same, or takes them as well and means nothing. -/
theorem scanPhp_append_blanks_beside {first : Piece} {found : Scan} (someRaw : first.raw ≠ []) (inCode : piece.IsCode)
    (scanned : scanPhp (first.raw ++ rawText (piece :: back)) = .ok found) (length : found.length = first.raw.length)
    (silent : found.reading = none → found.mode = .php ∧ Silent first.raw (rawText (piece :: back)))
    (further : piecesFrom found.mode (rawText (piece :: back)) = .ok (piece :: back)) :
    scanPhp (first.raw ++ (blanks ++ rawText (piece :: back))) = .ok found ∨
      found.reading = none ∧
        scanPhp (first.raw ++ blanks ++ rawText (piece :: back)) = .ok ⟨(first.raw ++ blanks).length, none, .php⟩ := by
  obtain ⟨isCode, some_, dark, noLineEnd⟩ := dark_of_isCode inCode further
  have general (ends : OpensMarked (first.raw ++ rawText (piece :: back)) ∨ found.reading.isSome) :
      scanPhp (first.raw ++ (blanks ++ rawText (piece :: back))) = .ok found :=
    scanPhp_append_blanks someRaw some_ allBlank scanned length.le ends
  cases meaning : found.reading with
  | some reading => exact .inl (general (.inr (by rw [meaning]; rfl)))
  | none =>
    obtain ⟨-, silent⟩ := silent meaning
    rcases silent.cases_of_more some_ with blank | ⟨opens, ends⟩ | marked
    · refine .inr ⟨rfl, scanPhp_blanks (by simp [someRaw]) ?_ dark⟩
      exact List.forall_mem_append.mpr ⟨blank, fun c member => isBlank_of_isSpaceOrTab (allBlank c member)⟩
    · have known := scanPhp_lineComment opens
      rw [known] at scanned
      cases scanned
      replace length : lineCommentLength (first.raw ++ rawText (piece :: back)) = first.raw.length := length
      obtain ⟨blank, others, rfl⟩ := List.exists_cons_of_ne_nil filled
      have dark : blank ≠ '[' ∧ blank ≠ '>' := by
        obtain rfl | rfl := eq_of_isSpaceOrTab (allBlank blank List.mem_cons_self) <;> decide
      have stillOpens : OpensLine (first.raw ++ blank :: others) (rawText (piece :: back)) := by
        refine opens.imp (fun ⟨body, isBody, noBracket⟩ => ⟨body ++ blank :: others, by rw [isBody]; rfl, ?_⟩)
          (fun slashes => slashes.trans (List.prefix_append _ _))
        cases body with
        | nil => simp [dark]
        | cons c body => simpa using noBracket
      have throughBlanks :
          lineCommentLength (blank :: others ++ rawText (piece :: back)) = (blank :: others).length := by
        have alone : lineCommentLength (blank :: others ++ []) = (blank :: others).length := by
          rw [List.append_nil, lineCommentLength_blanks allBlank]
        rw [lineCommentLength_append alone (head?_ne_of_endsLine ends), lineCommentLength_of_endsLine ends,
          Nat.add_zero]
      have measured : lineCommentLength (first.raw ++ blank :: others ++ rawText (piece :: back)) =
          (first.raw ++ blank :: others).length := by
        rw [List.append_assoc, lineCommentLength_append length (by simp [dark]), throughBlanks, List.length_append]
      exact .inr ⟨rfl, by rw [scanPhp_lineComment stillOpens, measured]⟩
    · exact .inl (general (.inl marked))

omit filled in
theorem count_lineEnd_blanks : blanks.count '\n' = 0 :=
  List.count_eq_zero.mpr fun member => absurd (allBlank _ member) (by decide)

/-- With blanks before a piece of code the other pieces are the same, but for blanks and a line comment that take
the blanks in. -/
theorem exists_piecesFrom_blanks (inCode : piece.IsCode) {mode : SourceMode}
    (read : piecesFrom mode text = .ok (front ++ piece :: back)) :
    ∃ pieces, piecesFrom mode (rawText front ++ (blanks ++ rawText (piece :: back))) = .ok pieces ∧
      ∀ line, tokensFrom line pieces = tokensFrom line (front ++ piece :: back) := by
  induction front generalizing mode text with
  | nil =>
    obtain ⟨rfl, -, dark, -⟩ := dark_of_isCode inCode read
    obtain rfl : rawText (piece :: back) = text := flatMap_raw_piecesFrom read
    have scanned : scan .php (blanks ++ rawText (piece :: back)) = .ok ⟨blanks.length, none, .php⟩ :=
      scanPhp_blanks filled (fun c member => isBlank_of_isSpaceOrTab (allBlank c member)) dark
    refine ⟨⟨blanks, none⟩ :: piece :: back, piecesFrom_append filled scanned read, fun line => ?_⟩
    simp [tokensFrom, count_lineEnd_blanks allBlank]
  | cons first front ih =>
    obtain ⟨found, scanned, length, sameReading, whole, further, someRaw, fits⟩ :=
      exists_scan_of_piecesFrom read (by simp)
    subst whole
    replace scanned : scan mode (first.raw ++ rawText (front ++ piece :: back)) = .ok found := scanned
    replace further : piecesFrom found.mode (rawText (front ++ piece :: back)) = .ok (front ++ piece :: back) := further
    have unchanged
        (still : scan mode (first.raw ++ (rawText front ++ (blanks ++ rawText (piece :: back)))) = .ok found) :
        ∃ pieces, piecesFrom mode (rawText (first :: front) ++ (blanks ++ rawText (piece :: back))) = .ok pieces ∧
          ∀ line, tokensFrom line pieces = tokensFrom line (first :: front ++ piece :: back) := by
      obtain ⟨pieces, others, tokens⟩ := ih further
      refine ⟨first :: pieces, ?_, fun line => ?_⟩
      · have again : scan mode (first.raw ++ (rawText front ++ (blanks ++ rawText (piece :: back))))
            = .ok ⟨first.raw.length, first.reading, found.mode⟩ := by
          rw [still, ← length, ← sameReading]
        simpa [rawText] using piecesFrom_append someRaw again others
      · simp only [List.cons_append, tokensFrom, tokens]
    cases mode with
    | html =>
      cases scanned
      exact unchanged (congrArg Except.ok (scanHtml_append_blanks filled allBlank inCode someRaw length further))
    | php =>
      have silent (nothing : found.reading = none) :
          found.mode = .php ∧ Silent first.raw (rawText (front ++ piece :: back)) := by
        obtain ⟨-, isCode, silent⟩ := fits.silent nothing
        rw [length, List.take_left, List.drop_left] at silent
        exact ⟨isCode, silent⟩
      by_cases beside : front = []
      · subst beside
        rcases scanPhp_append_blanks_beside filled allBlank someRaw inCode scanned length silent further with
          still | ⟨nothing, joined⟩
        · exact unchanged still
        · obtain ⟨isCode, -⟩ := silent nothing
          rw [isCode] at further
          refine ⟨⟨first.raw ++ blanks, none⟩ :: piece :: back, ?_, fun line => ?_⟩
          · have joined : scan .php (first.raw ++ blanks ++ rawText (piece :: back))
                = .ok ⟨(first.raw ++ blanks).length, none, .php⟩ := joined
            simpa [rawText] using piecesFrom_append (by simp [someRaw]) joined further
          · have isSilent : first.reading = none := sameReading ▸ nothing
            simp [tokensFrom, isSilent, count_lineEnd_blanks allBlank]
      · have some_ : rawText (piece :: back) ≠ [] := by
          obtain ⟨_, _, _, _, _, _, someRaw⟩ := scanned_of_mem_piecesFrom further piece (by simp)
          simp [rawText, someRaw]
        exact unchanged (scanPhp_append_blanks_behind allBlank someRaw scanned length silent further beside some_)

end Inserted

/-- Spaces and tabs before a piece of code change nothing of what is read: the tokens stay the same with their lines,
and so do the trees and what an extraction does with them. -/
theorem layout_changes_nothing {source : String} {front back : List Piece} {piece : Piece} {blanks : List Char}
    (read : sourcePieces source.toList = .ok (front ++ piece :: back)) (inCode : piece.IsCode)
    (allBlank : ∀ c ∈ blanks, isSpaceOrTab c = true) :
    let spaced := String.ofList (rawText front ++ (blanks ++ rawText (piece :: back)))
    sourceTokens spaced = sourceTokens source ∧
      (∀ path limit, parseSource path spaced limit = parseSource path source limit) ∧
      ∀ request run progress,
        Run.extractSource request run progress spaced = Run.extractSource request run progress source := by
  intro spaced
  have tokens : sourceTokens spaced = sourceTokens source := by
    by_cases filled : blanks = []
    · subst filled
      have whole : rawText (front ++ piece :: back) = source.toList := flatMap_raw_piecesFrom read
      have same : spaced = source := by
        simp only [spaced, List.nil_append, ← rawText_append, whole, String.ofList_toList]
      rw [same]
    · obtain ⟨pieces, again, same⟩ := exists_piecesFrom_blanks filled allBlank inCode read
      simp only [sourceTokens, spaced, String.toList_ofList, sourcePieces, again]
      rw [show piecesFrom .html source.toList = _ from read]
      simp only [Except.map, same]
  have trees (path : String) (limit : Nat) : parseSource path spaced limit = parseSource path source limit := by
    simp only [parseSource, tokens]
  exact ⟨tokens, trees, fun request run progress => by simp only [Run.extractSource, trees]⟩

/-- An empty block text with a dot directly behind its closing label. -/
def dotBehindLabel : String := "<?php <<<E\nE.$b;"

/-- The pieces up to the closing label. -/
def labelPieces : List Piece := [
  ⟨['<', '?', 'p', 'h', 'p'], some { kind := .openTag, text := ['<', '?', 'p', 'h', 'p'] }⟩, ⟨[' '], none⟩,
  ⟨['<', '<', '<', 'E', '\n', 'E'], some { kind := .string, text := [] }⟩]

def dotPiece : Piece := ⟨['.'], some { kind := .operator, text := ['.'] }⟩

/-- The pieces behind the dot. -/
def operandPieces : List Piece := [
  ⟨['$', 'b'], some { kind := .variable, text := ['b'] }⟩, ⟨[';'], some { kind := .punctuation, text := [';'] }⟩]

deriving instance DecidableEq for Reading
deriving instance DecidableEq for Piece

theorem layout_dotBehindLabel :
    sourcePieces dotBehindLabel.toList = .ok (labelPieces ++ dotPiece :: operandPieces) ∧ dotPiece.IsCode ∧
      (∀ c ∈ [' ', '\t'], isSpaceOrTab c = true) ∧
      sourceTokens "<?php <<<E\nE \t.$b;" = sourceTokens dotBehindLabel := by
  have read : sourcePieces dotBehindLabel.toList = .ok (labelPieces ++ dotPiece :: operandPieces) := by decide +kernel
  have inCode : dotPiece.IsCode := ⟨_, rfl, by decide, by decide⟩
  have allBlank : ∀ c ∈ [' ', '\t'], isSpaceOrTab c = true := by simp [isSpaceOrTab]
  have spaced : String.ofList (rawText labelPieces ++ ([' ', '\t'] ++ rawText (dotPiece :: operandPieces))) =
      "<?php <<<E\nE \t.$b;" := by decide +kernel
  have same := (layout_changes_nothing read inCode allBlank).1
  rw [spaced] at same
  exact ⟨read, inCode, allBlank, same⟩

end FormHarvest
