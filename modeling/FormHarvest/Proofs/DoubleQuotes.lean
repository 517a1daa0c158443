import FormHarvest.Proofs.EscapeFaults
import FormHarvest.Proofs.WrittenWords

namespace FormHarvest

/-! ### Escapes as the language defines them -/

/-- As many digits as stand at the start of a text, but no more than a limit. -/
structure DigitRun (isDigit : Char → Bool) (limit : Nat) (digits rest : List Char) : Prop where
  filled : digits ≠ []
  all : digits.all isDigit = true
  short : digits.length ≤ limit
  longest : digits.length = limit ∨ ∀ c ∈ rest.head?, isDigit c = false

/-- The letters and signs that make an escape alone, with what they stand for. -/
def letterEscapes : List (Char × Char) := [
  ('n', '\n'), ('t', '\t'), ('r', '\r'), ('v', '\x0b'), ('e', '\x1b'), ('f', '\x0c'), ('\\', '\\'),
  ('$', '$'), ('"', '"')]

/-- Behind a backslash stands an escape: the text, the code point that it stands for and what follows
it. -/
inductive Escape : List Char → Nat → List Char → Prop
  | letter {c d : Char} {rest : List Char} : (c, d) ∈ letterEscapes → Escape (c :: rest) d.toNat rest
  | octal {digits rest : List Char} : DigitRun isOctal 3 digits rest →
    Escape (digits ++ rest) (digitsValue 8 digits % 256) rest
  | hexadecimal {digits rest : List Char} : DigitRun isHex 2 digits rest →
    Escape ('x' :: (digits ++ rest)) (digitsValue 16 digits) rest
  | codePoint {digits rest : List Char} : digits ≠ [] → digits.all isHex = true →
    digitsValue 16 digits ≤ 0x10FFFF →
    Escape ('u' :: '{' :: (digits ++ '}' :: rest)) (digitsValue 16 digits) rest

/-- The text between double quotes, read from left to right, has a value in code points. A backslash
before no escape stands for itself. -/
inductive Decodes : List Char → List Nat → Prop
  | done : Decodes [] []
  | plain {c : Char} {rest : List Char} {value : List Nat} : c ≠ '\\' → Decodes rest value →
    Decodes (c :: rest) (c.toNat :: value)
  | escape {after rest : List Char} {code : Nat} {value : List Nat} : Escape after code rest →
    Decodes rest value → Decodes ('\\' :: after) (code :: value)
  | lone {after : List Char} {value : List Nat} : (∀ code rest, ¬Escape after code rest) →
    Decodes after value → Decodes ('\\' :: after) ('\\'.toNat :: value)

/-- An escape that is read as something else: a zero with one octal digit behind it, or a code point
whose number is too large for 32 bits or is written with more than hexadecimal digits. -/
inductive Misread : List Char → Prop
  | zero {d : Char} {rest : List Char} : isOctal d = true → (∀ c ∈ rest.head?, isOctal c = false) →
    Misread ('0' :: d :: rest)
  | codePoint {inside behind : List Char} {n : Int} : '}' ∉ inside → readHexInteger? inside = some n →
    (n < -0x80000000 ∨ 0x7FFFFFFF < n ∨ 0 ≤ n ∧ n ≤ 0x10FFFF ∧ inside.all isHex = false) →
    Misread ('u' :: '{' :: (inside ++ '}' :: behind))

/-- A text between double quotes, read from its start, comes to an escape that is misread. -/
inductive HoldsMisread : List Char → Prop
  | here {after : List Char} : Misread after → HoldsMisread ('\\' :: after)
  | plain {c : Char} {rest : List Char} : c ≠ '\\' → HoldsMisread rest → HoldsMisread (c :: rest)
  | escape {after rest : List Char} {code : Nat} : Escape after code rest → HoldsMisread rest →
    HoldsMisread ('\\' :: after)
  | lone {after : List Char} : (∀ code rest, ¬Escape after code rest) → HoldsMisread after →
    HoldsMisread ('\\' :: after)

/-! ### Runs of digits -/

namespace DigitRun

variable {isDigit : Char → Bool} {limit : Nat} {digits rest : List Char}

theorem takeWhile_take (run : DigitRun isDigit limit digits rest) :
    ((digits ++ rest).take limit).takeWhile isDigit = digits := by
  rw [List.take_append, List.take_of_length_le run.short]
  rcases run.longest with full | ends
  · rw [full, Nat.sub_self, List.take_zero]
    exact takeWhile_append_stop run.all nofun
  · refine takeWhile_append_stop run.all fun c first => ends c ?_
    rw [List.head?_take] at first
    split at first
    · cases first
    · exact first

/-- Where a digit stands, a run of digits starts. -/
theorem exists_of_isDigit {c : Char} (limit : Nat) (digit : isDigit c = true) (text : List Char)
    (positive : 0 < limit) :
    ∃ digits rest, c :: text = digits ++ rest ∧ DigitRun isDigit limit digits rest := by
  have within := List.takeWhile_append_dropWhile (p := isDigit) (l := (c :: text).take limit)
  refine ⟨((c :: text).take limit).takeWhile isDigit,
    ((c :: text).take limit).dropWhile isDigit ++ (c :: text).drop limit, ?_, ?_, List.all_takeWhile, ?_, ?_⟩
  · rw [← List.append_assoc, within, List.take_append_drop]
  · obtain ⟨lower, rfl⟩ : ∃ lower, limit = lower + 1 := ⟨limit - 1, by omega⟩
    simp [digit]
  · exact ((List.takeWhile_prefix isDigit).length_le).trans (List.length_take_le limit _)
  · cases behind : ((c :: text).take limit).dropWhile isDigit with
    | cons d others =>
      right
      intro first isFirst
      obtain rfl : d = first := by simpa using isFirst
      have := List.head?_dropWhile_not isDigit ((c :: text).take limit)
      simpa [behind] using this
    | nil =>
      rw [behind, List.append_nil] at within
      rw [within, List.nil_append, List.length_take]
      by_cases full : limit ≤ (c :: text).length
      · exact .inl (Nat.min_eq_left full)
      · rw [List.drop_eq_nil_of_le (by omega)]
        exact .inr nofun

end DigitRun

/-! ### The parts of an escape -/

theorem letterEscape?_eq_some_iff {c d : Char} : letterEscape? c = some d ↔ (c, d) ∈ letterEscapes := by
  constructor
  · intro found
    unfold letterEscape? at found
    split at found <;> cases found <;> decide
  · intro member
    have all : letterEscapes.all (fun pair => letterEscape? pair.1 == some pair.2) = true := by decide
    simpa using List.all_eq_true.mp all _ member

/-- The octal digits. -/
def octalDigits : List Char := ['0', '1', '2', '3', '4', '5', '6', '7']

theorem mem_octalDigits_of_isOctal {c : Char} (octal : isOctal c = true) : c ∈ octalDigits := by
  have codes : octalDigits.map Char.toNat = [48, 49, 50, 51, 52, 53, 54, 55] := by decide
  have bounds : 48 ≤ c.toNat ∧ c.toNat ≤ 55 := by
    simpa [isOctal, Char.le_def, UInt32.le_iff_toNat_le] using octal
  have code : c.toNat ∈ octalDigits.map Char.toNat := by
    rw [codes]
    simp
    omega
  exact (List.mem_map_of_injective fun _ _ => Char.toNat_inj.mp).mp code

/-- An octal digit starts no other escape. -/
theorem plain_of_isOctal {c : Char} (octal : isOctal c = true) :
    letterEscape? c = none ∧ c ≠ 'u' ∧ c ≠ 'x' ∧ c ≠ '\\' := by
  have all : octalDigits.all (fun c => decide (letterEscape? c = none ∧ c ≠ 'u' ∧ c ≠ 'x' ∧ c ≠ '\\')) = true := by
    decide
  exact of_decide_eq_true (List.all_eq_true.mp all c (mem_octalDigits_of_isOctal octal))

theorem codePointEscape?_of_ne {after : List Char} (unbraced : ∀ rest, after ≠ 'u' :: '{' :: rest) :
    codePointEscape? after = .ok none := by
  unfold codePointEscape?
  split
  · exact absurd rfl (unbraced _)
  · rfl

section Braces

variable {inside : List Char} (inner : '}' ∉ inside) (behind : List Char)

include inner

theorem codePointEscape?_of_none (unread : readHexInteger? inside = none) :
    codePointEscape? ('u' :: '{' :: (inside ++ '}' :: behind)) = .ok none := by
  simp [codePointEscape?, takeWhile_ne_append inner behind, unread]

theorem codePointEscape?_of_some {n : Int} (read : readHexInteger? inside = some n) :
    codePointEscape? ('u' :: '{' :: (inside ++ '}' :: behind)) =
      (escapedCodePoint? n).map fun code? => code?.map fun code => (code, inside.length + 3) := by
  simp [codePointEscape?, takeWhile_ne_append inner behind, read]

end Braces

/-! ### Numbers in base sixteen -/

theorem isAsciiWord_of_isHex {c : Char} (hex : isHex c = true) : isAsciiWord c = true := by
  by_cases digit : c.isDigit = true
  · simp [isAsciiWord, Char.isAlphanum, digit]
  by_cases lower : 'a' ≤ c ∧ c ≤ 'f'
  · have small : c.isLower = true := by
      simp only [Char.isLower, Bool.and_eq_true, decide_eq_true_eq]
      exact ⟨lower.1, lower.2.trans (by decide)⟩
    simp [isAsciiWord, Char.isAlphanum, Char.isAlpha, small]
  by_cases upper : 'A' ≤ c ∧ c ≤ 'F'
  · have capital : c.isUpper = true := by
      simp only [Char.isUpper, decide_eq_true_eq]
      exact ⟨upper.1, upper.2.trans (by decide)⟩
    simp [isAsciiWord, Char.isAlphanum, Char.isAlpha, capital]
  simp [isHex, hexValue?, digit, lower, upper] at hex

theorem notMem_of_isHex {c : Char} (hex : isHex c = true) : c ∉ ['-', '+', 'x', 'X', '_', '}'] := by
  have none : ['-', '+', 'x', 'X', '_', '}'].any isHex = false := by decide
  exact fun member => List.any_eq_false.mp none c member hex

theorem dropWhile_of_all {drop : Char → Bool} {text : List Char} (all : text.all (!drop ·) = true) :
    text.dropWhile drop = text := by
  cases text with
  | nil => rfl
  | cons c text =>
    rw [List.all_cons, Bool.and_eq_true, Bool.not_eq_true'] at all
    exact List.dropWhile_cons_of_neg (by simp [all.1])

theorem trimBoth_of_all {drop : Char → Bool} {text : List Char} (all : text.all (!drop ·) = true) :
    trimBoth drop text = text := by
  rw [trimBoth, dropWhile_of_all all, dropWhile_of_all (by rwa [List.all_reverse]), List.reverse_reverse]

/-- Digits alone are read as the number that they write. -/
theorem readHexInteger?_of_isHex {digits : List Char} (filled : digits ≠ []) (all : digits.all isHex = true) :
    readHexInteger? digits = some (digitsValue 16 digits : Int) := by
  have hex (c : Char) (member : c ∈ digits) : isHex c = true := List.all_eq_true.mp all c member
  have known (c : Char) (member : c ∈ digits) :
      c ≠ '_' ∧ ∃ d, digitIn? 16 c = some d ∧ hexValue? c = some d := by
    obtain ⟨d, read⟩ := Option.isSome_iff_exists.mp (hex c member)
    have other := notMem_of_isHex (hex c member)
    exact ⟨by simp_all, d, (digitIn?_of_isHex (hex c member)).trans read, read⟩
  have trimmed : trimBoth isNumeralBlank digits = digits := by
    refine trimBoth_of_all (List.all_eq_true.mpr fun c member => ?_)
    rw [isNumeralBlank, isBlank_of_isAsciiWord (isAsciiWord_of_isHex (hex c member))]
    rfl
  have number := readDigits?_eq filled known
  have unmarked : readMarkedHex? digits = some (digitsValue 16 digits) := by
    unfold readMarkedHex?
    split
    · rename_i zero x rest
      have noMark : (x == 'x' || x == 'X') = false := by
        have := notMem_of_isHex (hex x (by simp))
        simp_all
      simpa [noMark] using number
    · exact number
  rw [readHexInteger?, trimmed]
  split
  · cases (hex '-' (by simp))
  · cases (hex '+' (by simp))
  · rw [unmarked]
    rfl

theorem mem_dropWhile {drop : Char → Bool} {text : List Char} {c : Char} (member : c ∈ text)
    (kept : drop c = false) : c ∈ text.dropWhile drop := by
  rw [← List.takeWhile_append_dropWhile (p := drop) (l := text), List.mem_append] at member
  refine member.resolve_left fun dropped => ?_
  rw [List.mem_takeWhile_imp dropped] at kept
  cases kept

theorem mem_trimBoth {drop : Char → Bool} {text : List Char} {c : Char} (member : c ∈ text)
    (kept : drop c = false) : c ∈ trimBoth drop text := by
  rw [trimBoth, List.mem_reverse]
  exact mem_dropWhile (List.mem_reverse.mpr (mem_dropWhile member kept)) kept

theorem backslash_notMem_of_digitsFrom {base value n : Nat} {digits : List Char}
    (read : digitsFrom base value digits = some n) : '\\' ∉ digits := by
  have noDigit : digitIn? base '\\' = none := rfl
  have other {c : Char} {d : Nat} (isDigit : digitIn? base c = some d) : '\\' ≠ c := by
    rintro rfl
    cases noDigit.symm.trans isDigit
  fun_induction digitsFrom base value digits with
  | case1 => exact nofun
  | case2 value c rest d isDigit ih => simp [other isDigit, ih read]
  | case3 => cases read
  | case4 value c rest noMark d isDigit ih => simp [other isDigit, ih read]
  | case5 => cases read

theorem backslash_notMem_of_readDigits? {base n : Nat} {digits : List Char}
    (read : readDigits? base digits = some n) : '\\' ∉ digits := by
  cases digits with
  | nil => cases read
  | cons c rest =>
    rw [readDigits?] at read
    split at read
    · rename_i d isDigit
      have noDigit : digitIn? base '\\' = none := rfl
      have other : '\\' ≠ c := by
        rintro rfl
        cases noDigit.symm.trans isDigit
      simp [other, backslash_notMem_of_digitsFrom read]
    · cases read

theorem backslash_notMem_of_readMarkedHex? {text : List Char} {n : Nat} (read : readMarkedHex? text = some n) :
    '\\' ∉ text := by
  unfold readMarkedHex? at read
  split at read
  · rename_i zero x rest
    split at read
    · rename_i marked
      have noZero : decimalValue? '\\' = none := rfl
      have notZero : '\\' ≠ zero := by
        rintro rfl
        simp [noZero] at marked
      have notMark : '\\' ≠ x := by
        rintro rfl
        simp at marked
      have noneBehind : '\\' ∉ rest := by
        split at read
        · have := backslash_notMem_of_readDigits? read
          simpa using this
        · exact backslash_notMem_of_readDigits? read
      simp [notZero, notMark, noneBehind]
    · exact backslash_notMem_of_readDigits? read
  · exact backslash_notMem_of_readDigits? read

theorem backslash_notMem_of_readHexInteger? {text : List Char} {n : Int} (read : readHexInteger? text = some n) :
    '\\' ∉ text := by
  intro member
  have kept : '\\' ∈ trimBoth isNumeralBlank text := mem_trimBoth member (by decide)
  have number {digits : List Char} (read : readMarkedHex? digits ≠ none) : '\\' ∉ digits := by
    obtain ⟨value, marked⟩ := Option.ne_none_iff_exists'.mp read
    exact backslash_notMem_of_readMarkedHex? marked
  unfold readHexInteger? at read
  split at read
  · rename_i rest same
    have isNumber : readMarkedHex? rest ≠ none := fun none => by simp [none] at read
    rw [same] at kept
    exact number isNumber (by simpa using kept)
  · rename_i rest same
    have isNumber : readMarkedHex? rest ≠ none := fun none => by simp [none] at read
    rw [same] at kept
    exact number isNumber (by simpa using kept)
  · have isNumber : readMarkedHex? (trimBoth isNumeralBlank text) ≠ none := fun none => by simp [none] at read
    exact number isNumber kept

/-! ### What is read of an escape -/

/-- An escape that is not misread is read as what it stands for. -/
theorem Escape.escapeAfter?_eq {after rest : List Char} {code : Nat} (escape : Escape after code rest)
    (fine : ¬Misread after) : ∃ taken, escapeAfter? after = .ok (some (code, taken)) ∧ after.drop taken = rest := by
  cases escape with
  | letter member =>
    refine ⟨1, ?_, rfl⟩
    simp only [letterEscapes, List.mem_cons, List.not_mem_nil, or_false, Prod.mk.injEq] at member
    rcases member with ⟨rfl, rfl⟩ | ⟨rfl, rfl⟩ | ⟨rfl, rfl⟩ | ⟨rfl, rfl⟩ | ⟨rfl, rfl⟩ | ⟨rfl, rfl⟩ | ⟨rfl, rfl⟩ |
      ⟨rfl, rfl⟩ | ⟨rfl, rfl⟩ <;> rfl
  | @octal digits _ run =>
    cases digits with
    | nil => exact absurd rfl run.filled
    | cons first others =>
      have all := run.all
      rw [List.all_cons, Bool.and_eq_true] at all
      have octal := run.takeWhile_take
      obtain ⟨noLetter, notU, notX, -⟩ := plain_of_isOctal all.1
      have noCodePoint : codePointEscape? (first :: others ++ rest) = .ok none :=
        codePointEscape?_of_ne fun _ same => notU (List.cons.inj same).1
      refine ⟨(first :: others).length, ?_, List.drop_left⟩
      rw [escapeAfter?, noCodePoint]
      rw [List.cons_append] at octal ⊢
      have noX : (first == 'x') = false := by simpa using notX
      by_cases short : first = '0' ∧ (first :: others).length < 3
      · obtain ⟨rfl, few⟩ := short
        cases others with
        | nil =>
          simp only [plainEscape?, octal, noLetter]
          rfl
        | cons d others =>
          obtain rfl : others = [] := List.eq_nil_of_length_eq_zero (by simp at few; omega)
          -- a zero and one digit: the only run that the named escape takes a part of
          have ends : ∀ c ∈ rest.head?, isOctal c = false := run.longest.resolve_left (by simp)
          exact absurd (.zero (by simpa using all.2) ends) fine
      · have long : (first == '0' && decide ((first :: others).length < 3)) = false := by simpa using short
        simp only [plainEscape?, octal, noLetter, long, noX]
        rfl
  | @hexadecimal digits _ run =>
    have noCodePoint : codePointEscape? ('x' :: (digits ++ rest)) = .ok none :=
      codePointEscape?_of_ne fun _ same => by simp at same
    refine ⟨digits.length + 1, ?_, by simp⟩
    rw [escapeAfter?, noCodePoint]
    simp [plainEscape?, run.takeWhile_take, run.filled, Except.map]
  | @codePoint digits behind filled all small =>
    have inner : '}' ∉ digits := fun member =>
      notMem_of_isHex (List.all_eq_true.mp all '}' member) (by simp)
    have known : escapedCodePoint? (digitsValue 16 digits : Int) = .ok (some (digitsValue 16 digits)) := by
      rw [escapedCodePoint?, if_neg (by omega), if_neg (by omega)]
      rfl
    refine ⟨digits.length + 3, ?_, by simp⟩
    rw [escapeAfter?, codePointEscape?_of_some inner _ (readHexInteger?_of_isHex filled all), known]
    rfl

theorem exists_escape_of_plainEscape? {after : List Char} {found : Nat × Nat}
    (plain : plainEscape? after = some found) : ∃ code rest, Escape after code rest := by
  cases after with
  | nil => cases plain
  | cons first rest =>
    by_cases hex : first = 'x' ∧ ∃ c ∈ rest.head?, isHex c = true
    · obtain ⟨rfl, c, isHead, digit⟩ := hex
      obtain ⟨others, rfl⟩ := List.head?_eq_some_iff.mp isHead
      obtain ⟨digits, behind, same, run⟩ := DigitRun.exists_of_isDigit 2 digit others (by decide)
      rw [same]
      exact ⟨_, behind, .hexadecimal run⟩
    by_cases octal : isOctal first = true
    · obtain ⟨digits, behind, same, run⟩ := DigitRun.exists_of_isDigit 3 octal rest (by decide)
      rw [same]
      exact ⟨_, behind, .octal run⟩
    cases letter : letterEscape? first with
    | some d => exact ⟨d.toNat, rest, .letter (letterEscape?_eq_some_iff.mp letter)⟩
    | none =>
      have noHex : (first == 'x' && !((rest.take 2).takeWhile isHex).isEmpty) = false := by
        by_cases mark : first = 'x'
        · have none : (rest.take 2).takeWhile isHex = [] := by
            cases rest with
            | nil => rfl
            | cons c rest => exact List.takeWhile_cons_of_neg fun digit => hex ⟨mark, c, rfl, digit⟩
          simp [none]
        · simp [mark]
      have noZero : (first == '0') = false := by
        rw [beq_eq_false_iff_ne]
        rintro rfl
        exact octal rfl
      simp [plainEscape?, noHex, letter, noZero, octal] at plain

/-- An escape by code point that is read is one as the language defines it, or is misread. -/
theorem codePointEscape?_eq_ok_none {after : List Char} (noEscape : ∀ code rest, ¬Escape after code rest)
    (fine : ¬Misread after) : codePointEscape? after = .ok none := by
  by_cases braced : ∃ rest, after = 'u' :: '{' :: rest
  · obtain ⟨rest, rfl⟩ := braced
    by_cases closed : '}' ∈ rest
    · obtain ⟨inside, behind, rfl, inner⟩ := List.eq_append_cons_of_mem closed
      cases read : readHexInteger? inside with
      | none => exact codePointEscape?_of_none inner behind read
      | some n =>
        have fits : ¬(n < -0x80000000 ∨ 0x7FFFFFFF < n) := fun huge =>
          fine (.codePoint inner read (huge.imp_right .inl))
        have none : n < 0 ∨ 0x10FFFF < n := by
          by_contra known
          have filled : inside ≠ [] := by
            rintro rfl
            cases read
          have all : inside.all isHex = true := by
            by_contra other
            exact fine (.codePoint inner read (.inr (.inr ⟨by omega, by omega, by simpa using other⟩)))
          have number := (readHexInteger?_of_isHex filled all).symm.trans read
          have small : digitsValue 16 inside ≤ 0x10FFFF := by
            have := Option.some.inj number
            omega
          exact noEscape _ _ (.codePoint filled all small)
        rw [codePointEscape?_of_some inner behind read, escapedCodePoint?, if_neg fits, if_pos none]
        rfl
    · have whole : rest.takeWhile (· != '}') = rest := by
        refine List.takeWhile_eq_self_iff.mpr fun c member => ?_
        rw [bne_iff_ne]
        rintro rfl
        exact closed member
      simp [codePointEscape?, whole]
  · exact codePointEscape?_of_ne fun rest same => braced ⟨rest, same⟩

/-- Where no escape stands, none is read, unless something is misread. -/
theorem escapeAfter?_eq_ok_none {after : List Char} (noEscape : ∀ code rest, ¬Escape after code rest)
    (fine : ¬Misread after) : escapeAfter? after = .ok none := by
  have plain : plainEscape? after = none := by
    by_contra found
    obtain ⟨value, found⟩ := Option.ne_none_iff_exists'.mp found
    obtain ⟨code, rest, escape⟩ := exists_escape_of_plainEscape? found
    exact noEscape code rest escape
  rw [escapeAfter?, codePointEscape?_eq_ok_none noEscape fine, plain]
  rfl

/-! ### One escape, one value -/

theorem length_lt_of_escape {after rest : List Char} {code : Nat} (escape : Escape after code rest) :
    rest.length < after.length := by
  cases escape with
  | letter => simp
  | octal run =>
    have := List.length_pos_iff.mpr run.filled
    rw [List.length_append]
    omega
  | hexadecimal => simp
  | codePoint => simp; omega

/-- A zero with one octal digit behind it is one escape. -/
theorem digitRun_zero {d : Char} {rest : List Char} (digit : isOctal d = true)
    (ends : ∀ c ∈ rest.head?, isOctal c = false) : DigitRun isOctal 3 ['0', d] rest where
  filled := by simp
  all := by simpa using ⟨rfl, digit⟩
  short := by simp
  longest := .inr ends

theorem Escape.of_zero {d : Char} {code : Nat} {rest behind : List Char} (digit : isOctal d = true)
    (ends : ∀ c ∈ rest.head?, isOctal c = false) (escape : Escape ('0' :: d :: rest) code behind) :
    code = digitsValue 8 ['0', d] % 256 ∧ behind = rest := by
  have run := (digitRun_zero digit ends).takeWhile_take
  generalize text : '0' :: d :: rest = after at escape
  cases escape with
  | letter member =>
    obtain ⟨rfl, -⟩ := List.cons.inj text
    simp [letterEscapes] at member
  | octal other =>
    have digits := other.takeWhile_take
    rw [← text] at digits
    obtain rfl := run.symm.trans digits
    exact ⟨rfl, by simpa using text.symm⟩
  | hexadecimal => simp at text
  | codePoint => simp at text

/-- An escape by code point has nothing but hexadecimal digits between its braces. -/
theorem Escape.of_braced {code : Nat} {inside behind rest : List Char} (inner : '}' ∉ inside)
    (escape : Escape ('u' :: '{' :: (inside ++ '}' :: behind)) code rest) :
    inside ≠ [] ∧ inside.all isHex = true ∧ digitsValue 16 inside ≤ 0x10FFFF := by
  generalize text : 'u' :: '{' :: (inside ++ '}' :: behind) = after at escape
  cases escape with
  | letter member =>
    obtain ⟨rfl, -⟩ := List.cons.inj text
    simp [letterEscapes] at member
  | @octal digits _ run =>
    cases digits with
    | nil => exact absurd rfl run.filled
    | cons first digits =>
      obtain ⟨rfl, -⟩ := List.cons.inj text
      exact absurd run.all (by simp [show isOctal 'u' = false by decide])
  | hexadecimal => simp at text
  | @codePoint digits _ filled all small =>
    have other : '}' ∉ digits := fun member => notMem_of_isHex (List.all_eq_true.mp all _ member) (by simp)
    have same : inside ++ '}' :: behind = digits ++ '}' :: rest := by simpa using text
    obtain rfl : inside = digits := by
      rw [← takeWhile_ne_append inner behind, same, takeWhile_ne_append other]
    exact ⟨filled, all, small⟩

/-- Among the misread escapes by code point are none as the language defines them. -/
theorem not_escape_of_misread {code : Nat} {inside behind rest : List Char} {n : Int} (inner : '}' ∉ inside)
    (read : readHexInteger? inside = some n)
    (wrong : n < -0x80000000 ∨ 0x7FFFFFFF < n ∨ 0 ≤ n ∧ n ≤ 0x10FFFF ∧ inside.all isHex = false) :
    ¬Escape ('u' :: '{' :: (inside ++ '}' :: behind)) code rest := by
  intro escape
  obtain ⟨filled, all, small⟩ := escape.of_braced inner
  have number := Option.some.inj (read.symm.trans (readHexInteger?_of_isHex filled all))
  rcases wrong with low | high | ⟨-, -, other⟩
  · omega
  · omega
  · rw [all] at other
    cases other

/-- Behind a backslash stands at most one escape. -/
theorem Escape.unique {after rest other : List Char} {one two : Nat} (first : Escape after one rest)
    (second : Escape after two other) : one = two ∧ rest = other := by
  by_cases misread : Misread after
  · cases misread with
    | zero digit ends =>
      obtain ⟨rfl, rfl⟩ := first.of_zero digit ends
      obtain ⟨rfl, rfl⟩ := second.of_zero digit ends
      exact ⟨rfl, rfl⟩
    | codePoint inner read wrong => exact absurd first (not_escape_of_misread inner read wrong)
  · obtain ⟨taken, read, rfl⟩ := first.escapeAfter?_eq misread
    obtain ⟨further, again, rfl⟩ := second.escapeAfter?_eq misread
    obtain ⟨rfl, rfl⟩ : one = two ∧ taken = further := by simpa using read.symm.trans again
    exact ⟨rfl, rfl⟩

namespace Decodes

variable {value : List Nat}

theorem of_plain {c : Char} {rest : List Char} (plain : c ≠ '\\') (decodes : Decodes (c :: rest) value) :
    ∃ others, value = c.toNat :: others ∧ Decodes rest others := by
  cases decodes with
  | plain _ others => exact ⟨_, rfl, others⟩
  | escape => exact absurd rfl plain
  | lone => exact absurd rfl plain

theorem of_escape {after rest : List Char} {code : Nat} (escape : Escape after code rest)
    (decodes : Decodes ('\\' :: after) value) : ∃ others, value = code :: others ∧ Decodes rest others := by
  cases decodes with
  | plain other => exact absurd rfl other
  | escape other others =>
    obtain ⟨rfl, rfl⟩ := escape.unique other
    exact ⟨_, rfl, others⟩
  | lone none => exact absurd escape (none _ _)

theorem of_lone {after : List Char} (none : ∀ code rest, ¬Escape after code rest)
    (decodes : Decodes ('\\' :: after) value) :
    ∃ others, value = '\\'.toNat :: others ∧ Decodes after others := by
  cases decodes with
  | plain other => exact absurd rfl other
  | escape other => exact absurd other (none _ _)
  | lone _ others => exact ⟨_, rfl, others⟩

theorem of_append {front : List Char} (rest : List Char) (plain : '\\' ∉ front)
    (decodes : Decodes (front ++ rest) value) :
    ∃ others, value = front.map Char.toNat ++ others ∧ Decodes rest others := by
  induction front generalizing value with
  | nil => exact ⟨value, rfl, decodes⟩
  | cons c front ih =>
    rw [List.mem_cons, not_or] at plain
    obtain ⟨others, rfl, further⟩ := decodes.of_plain (Ne.symm plain.1)
    obtain ⟨last, rfl, behind⟩ := ih plain.2 further
    exact ⟨last, rfl, behind⟩

end Decodes

/-- The value of every text between double quotes is defined, and only one. -/
theorem existsUnique_decodes (body : List Char) : ∃! value, Decodes body value := by
  -- an escape takes several characters at once, so the induction is on the length
  induction length : body.length using Nat.strong_induction_on generalizing body with
  | _ size ih =>
    cases body with
    | nil =>
      refine ⟨[], .done, fun other decodes => ?_⟩
      cases decodes
      rfl
    | cons c rest =>
      rw [List.length_cons] at length
      by_cases backslash : c = '\\'
      · subst backslash
        by_cases escapes : ∃ code behind, Escape rest code behind
        · obtain ⟨code, behind, escape⟩ := escapes
          have := length_lt_of_escape escape
          obtain ⟨value, decodes, only⟩ := ih behind.length (by omega) behind rfl
          refine ⟨code :: value, .escape escape decodes, fun other further => ?_⟩
          obtain ⟨others, rfl, last⟩ := further.of_escape escape
          rw [only others last]
        · have none : ∀ code behind, ¬Escape rest code behind := fun code behind escape =>
            escapes ⟨code, behind, escape⟩
          obtain ⟨value, decodes, only⟩ := ih rest.length (by omega) rest rfl
          refine ⟨'\\'.toNat :: value, .lone none decodes, fun other further => ?_⟩
          obtain ⟨others, rfl, last⟩ := further.of_lone none
          rw [only others last]
      · obtain ⟨value, decodes, only⟩ := ih rest.length (by omega) rest rfl
        refine ⟨c.toNat :: value, .plain backslash decodes, fun other further => ?_⟩
        obtain ⟨others, rfl, last⟩ := further.of_plain backslash
        rw [only others last]

/-! ### What is read of a text -/

section Places

variable {after : List Char} {c : Char} {rest : List Char}

theorem doubleQuotedFrom_drop (skip : Nat) (text : List Char) :
    doubleQuotedFrom skip text = doubleQuotedFrom 0 (text.drop skip) := by
  induction text generalizing skip with
  | nil =>
    rw [List.drop_nil]
    cases skip <;> rfl
  | cons c text ih =>
    cases skip with
    | zero => rfl
    | succ skip => exact ih skip

theorem doubleQuotedFrom_plain (plain : c ≠ '\\') :
    doubleQuotedFrom 0 (c :: rest) = (doubleQuotedFrom 0 rest).map (c.toNat :: ·) := by
  simp [doubleQuotedFrom, plain]

theorem doubleQuotedFrom_lone (none : escapeAfter? after = .ok none) :
    doubleQuotedFrom 0 ('\\' :: after) = (doubleQuotedFrom 0 after).map ('\\'.toNat :: ·) := by
  simp [doubleQuotedFrom, none]

theorem doubleQuotedFrom_escape {code taken : Nat} (read : escapeAfter? after = .ok (some (code, taken))) :
    doubleQuotedFrom 0 ('\\' :: after) = (doubleQuotedFrom 0 (after.drop taken)).map (code :: ·) := by
  simp [doubleQuotedFrom, read, doubleQuotedFrom_drop taken]

end Places

/-- What was read after a code point that is put in front. -/
theorem exists_of_map_cons {parts : Except EscapeFault (List Nat)} {code : Nat} {read : List Nat}
    (isRead : parts.map (code :: ·) = .ok read) : ∃ others, parts = .ok others ∧ read = code :: others := by
  obtain ⟨others, isOk, same⟩ := map_eq_ok_iff.mp isRead
  exact ⟨others, isOk, same.symm⟩

/-- A text without misread escapes is read as its value. -/
theorem doubleQuotedFrom_of_decodes {body : List Char} {value : List Nat} (decodes : Decodes body value)
    (fine : ¬HoldsMisread body) : doubleQuotedFrom 0 body = .ok value := by
  induction decodes with
  | done => rfl
  | plain other decodes ih => rw [doubleQuotedFrom_plain other, ih fun holds => fine (.plain other holds), Except.map]
  | escape escape decodes ih =>
    obtain ⟨taken, read, rfl⟩ := escape.escapeAfter?_eq fun misread => fine (.here misread)
    rw [doubleQuotedFrom_escape read, ih fun holds => fine (.escape escape holds), Except.map]
  | lone none decodes ih =>
    have unread := escapeAfter?_eq_ok_none none fun misread => fine (.here misread)
    rw [doubleQuotedFrom_lone unread, ih fun holds => fine (.lone none holds), Except.map]

/-- The signs that stand at the start of an escape by code point. -/
def isCodePointSign (code : Nat) : Bool := code == '\\'.toNat || code == 'u'.toNat

/-- What is read where a text has a value falls short of it: it has fewer of the signs at the start of
an escape by code point, or as many and more code points. -/
def FallsShort (read value : List Nat) : Prop :=
  read.countP isCodePointSign < value.countP isCodePointSign ∨
    read.countP isCodePointSign = value.countP isCodePointSign ∧ value.length < read.length

/-- No other code point has the character of one, but for the replacement character. -/
theorem characterOf_eq_iff {n : Nat} {c : Char} (other : c ≠ '\uFFFD') : characterOf n = c ↔ n = c.toNat := by
  constructor
  · intro same
    unfold characterOf at same
    split at same
    · rename_i valid
      rw [← same, Char.toNat_ofNat, if_pos valid]
    · exact absurd same.symm other
  · rintro rfl
    exact characterOf_toNat c

theorem isCodePointSign_iff (code : Nat) :
    isCodePointSign code = true ↔ characterOf code = '\\' ∨ characterOf code = 'u' := by
  rw [characterOf_eq_iff (by decide), characterOf_eq_iff (by decide)]
  simp [isCodePointSign]

/-- The characters fall short as the code points do. -/
theorem FallsShort.map_ne {read value : List Nat} (short : FallsShort read value) :
    read.map characterOf ≠ value.map characterOf := by
  intro same
  have signs (codes : List Nat) : codes.countP isCodePointSign
      = (codes.map characterOf).countP fun c => decide (c = '\\' ∨ c = 'u') := by
    rw [List.countP_map]
    exact List.countP_congr fun code _ => (isCodePointSign_iff code).trans decide_eq_true_iff.symm
  have lengths := congrArg List.length same
  rw [List.length_map, List.length_map] at lengths
  rcases short with fewer | ⟨-, longer⟩
  · rw [signs, signs, same] at fewer
    exact absurd fewer (Nat.lt_irrefl _)
  · omega

theorem FallsShort.cons {read value : List Nat} (code : Nat) (short : FallsShort read value) :
    FallsShort (code :: read) (code :: value) := by
  simp only [FallsShort, List.countP_cons, List.length_cons] at short ⊢
  omega

/-- What is read where no backslash stands starts with the character there. -/
theorem exists_of_plain {c : Char} {rest : List Char} {read : List Nat} (plain : c ≠ '\\')
    (isRead : doubleQuotedFrom 0 (c :: rest) = .ok read) :
    ∃ others, doubleQuotedFrom 0 rest = .ok others ∧ read = c.toNat :: others := by
  rw [doubleQuotedFrom_plain plain] at isRead
  exact exists_of_map_cons isRead

/-- What is read at an escape that is not misread starts with what it stands for. -/
theorem exists_of_escape {after rest : List Char} {code : Nat} {read : List Nat} (escape : Escape after code rest)
    (fine : ¬Misread after) (isRead : doubleQuotedFrom 0 ('\\' :: after) = .ok read) :
    ∃ others, doubleQuotedFrom 0 rest = .ok others ∧ read = code :: others := by
  obtain ⟨taken, readEscape, rfl⟩ := escape.escapeAfter?_eq fine
  rw [doubleQuotedFrom_escape readEscape] at isRead
  exact exists_of_map_cons isRead

/-- What is read at a backslash before no escape starts with it. -/
theorem exists_of_lone {after : List Char} {read : List Nat} (none : ∀ code rest, ¬Escape after code rest)
    (fine : ¬Misread after) (isRead : doubleQuotedFrom 0 ('\\' :: after) = .ok read) :
    ∃ others, doubleQuotedFrom 0 after = .ok others ∧ read = '\\'.toNat :: others := by
  rw [doubleQuotedFrom_lone (escapeAfter?_eq_ok_none none fine)] at isRead
  exact exists_of_map_cons isRead

/-- Where one octal digit follows a zero, the zero alone is read. -/
theorem escapeAfter?_zero {d : Char} {rest : List Char} (digit : isOctal d = true)
    (ends : ∀ c ∈ rest.head?, isOctal c = false) : escapeAfter? ('0' :: d :: rest) = .ok (some (0, 1)) := by
  have octal : (('0' :: d :: rest).take 3).takeWhile isOctal = ['0', d] :=
    (digitRun_zero digit ends).takeWhile_take
  have noCodePoint : codePointEscape? ('0' :: d :: rest) = .ok none := rfl
  have noLetter : letterEscape? '0' = none := rfl
  rw [escapeAfter?, noCodePoint, Except.map]
  simp only [plainEscape?, octal, noLetter]
  rfl

/-- Behind an escape that is misread the text is read on from where its value goes on, and nothing can
make up for what was misread. -/
theorem exists_of_misread {after : List Char} {read value : List Nat} (misread : Misread after)
    (decodes : Decodes ('\\' :: after) value) (isRead : doubleQuotedFrom 0 ('\\' :: after) = .ok read) :
    ∃ rest others value', rest.length < after.length ∧ doubleQuotedFrom 0 rest = .ok others ∧
      Decodes rest value' ∧ (others = value' ∨ FallsShort others value' → FallsShort read value) := by
  cases misread with
  | @zero d rest digit ends =>
    obtain ⟨value', rfl, further⟩ := decodes.of_escape (.octal (digitRun_zero digit ends))
    rw [doubleQuotedFrom_escape (escapeAfter?_zero digit ends)] at isRead
    obtain ⟨behind, readBehind, rfl⟩ := exists_of_map_cons isRead
    obtain ⟨others, readOthers, rfl⟩ := exists_of_plain (plain_of_isOctal digit).2.2.2 readBehind
    refine ⟨rest, others, value', by simp, readOthers, further, fun settled => ?_⟩
    have noSigns : octalDigits.all (fun d => !isCodePointSign d.toNat &&
        !isCodePointSign (digitsValue 8 ['0', d] % 256)) = true := by decide
    have noSign := List.all_eq_true.mp noSigns d (mem_octalDigits_of_isOctal digit)
    have noZero : isCodePointSign 0 = false := by decide
    simp only [Bool.and_eq_true, Bool.not_eq_true'] at noSign
    simp only [FallsShort, List.countP_cons, List.length_cons, noSign, noZero] at settled ⊢
    rcases settled with rfl | fewer | ⟨same, longer⟩ <;> simp <;> omega
  | @codePoint inside behind n inner number wrong =>
    have none (code : Nat) (rest : List Char) : ¬Escape ('u' :: '{' :: (inside ++ '}' :: behind)) code rest :=
      not_escape_of_misread inner number wrong
    obtain ⟨signs, rfl, further⟩ := decodes.of_lone none
    have plain : '\\' ∉ 'u' :: '{' :: (inside ++ ['}']) := by
      simpa using backslash_notMem_of_readHexInteger? number
    obtain ⟨value', rfl, last⟩ := Decodes.of_append behind plain (by simpa using further)
    have fits : ¬(n < -0x80000000 ∨ 0x7FFFFFFF < n) := by
      intro huge
      have failed : escapeAfter? ('u' :: '{' :: (inside ++ '}' :: behind)) = .error .codePointOverflow :=
        escapeAfter?_eq_error_iff.mpr ⟨inside, behind, n, rfl, inner, number, huge⟩
      simp [doubleQuotedFrom, failed] at isRead
    obtain ⟨code, known⟩ : ∃ code, escapedCodePoint? n = .ok (some code) := by
      rw [escapedCodePoint?, if_neg fits, if_neg (by omega)]
      exact ⟨_, rfl⟩
    have escape : escapeAfter? ('u' :: '{' :: (inside ++ '}' :: behind)) = .ok (some (code, inside.length + 3)) := by
      rw [escapeAfter?, codePointEscape?_of_some inner behind number, known]
      rfl
    rw [doubleQuotedFrom_escape escape] at isRead
    obtain ⟨others, readOthers, rfl⟩ := exists_of_map_cons isRead
    -- the value holds the backslash and the letter, of which one code point at most was made
    refine ⟨behind, others, value', by simp; omega, by simpa using readOthers, last, fun settled => .inl ?_⟩
    have atMost : (code :: others).countP isCodePointSign ≤ others.countP isCodePointSign + 1 := by
      rw [List.countP_cons]
      split <;> omega
    have two : isCodePointSign '\\'.toNat = true ∧ isCodePointSign 'u'.toNat = true := by decide
    simp only [FallsShort, List.map_cons, List.countP_cons, List.cons_append, List.countP_append, two]
      at settled atMost ⊢
    rcases settled with rfl | fewer | ⟨same, longer⟩ <;> simp <;> omega

/-- What is read of a text that comes to an escape that is misread falls short of its value. -/
theorem fallsShort_of_holdsMisread {body : List Char} {read value : List Nat} (holds : HoldsMisread body)
    (decodes : Decodes body value) (isRead : doubleQuotedFrom 0 body = .ok read) : FallsShort read value := by
  induction length : body.length using Nat.strong_induction_on generalizing body read value with
  | _ size ih =>
    -- behind the escape that is misread the text is read as its value, or falls short of it again
    have here {after : List Char} (same : body = '\\' :: after) (misread : Misread after) : FallsShort read value := by
      subst same
      obtain ⟨rest, others, value', shorter, readOthers, further, falls⟩ := exists_of_misread misread decodes isRead
      rw [List.length_cons] at length
      refine falls ?_
      by_cases again : HoldsMisread rest
      · exact .inr (ih rest.length (by omega) again further readOthers rfl)
      · exact .inl (Except.ok.inj (readOthers.symm.trans (doubleQuotedFrom_of_decodes further again)))
    cases holds with
    | here misread => exact here rfl misread
    | @plain c rest other holds =>
      obtain ⟨value', rfl, further⟩ := decodes.of_plain other
      obtain ⟨others, readOthers, rfl⟩ := exists_of_plain other isRead
      rw [List.length_cons] at length
      exact (ih rest.length (by omega) holds further readOthers rfl).cons c.toNat
    | @escape after rest code escape holds =>
      by_cases misread : Misread after
      · exact here rfl misread
      obtain ⟨value', rfl, further⟩ := decodes.of_escape escape
      obtain ⟨others, readOthers, rfl⟩ := exists_of_escape escape misread isRead
      have shorter := length_lt_of_escape escape
      rw [List.length_cons] at length
      exact (ih rest.length (by omega) holds further readOthers rfl).cons code
    | @lone after none holds =>
      by_cases misread : Misread after
      · exact here rfl misread
      obtain ⟨value', rfl, further⟩ := decodes.of_lone none
      obtain ⟨others, readOthers, rfl⟩ := exists_of_lone none misread isRead
      rw [List.length_cons] at length
      exact (ih after.length (by omega) holds further readOthers rfl).cons '\\'.toNat

/-- A text between double quotes is read as its value, and as nothing else, exactly if it comes to no
escape that is misread: so it is with its code points, surrogates among them, and with its characters. -/
theorem doubleQuotedValue_iff_decodes_iff (body : List Char) :
    ((∀ codes, doubleQuotedCodes body = .ok codes ↔ Decodes body codes) ↔ ¬HoldsMisread body) ∧
      ((∀ value, doubleQuotedValue body = .ok value ↔ ∃ codes, Decodes body codes ∧ codes.map characterOf = value) ↔
        ¬HoldsMisread body) := by
  obtain ⟨codes, decodes, only⟩ := existsUnique_decodes body
  have read (fine : ¬HoldsMisread body) : doubleQuotedCodes body = .ok codes := doubleQuotedFrom_of_decodes decodes fine
  refine ⟨⟨fun agrees holds => ?_, fun fine other => ?_⟩, ⟨fun agrees holds => ?_, fun fine value => ?_⟩⟩
  · exact (fallsShort_of_holdsMisread holds decodes ((agrees codes).mpr decodes)).map_ne rfl
  · rw [read fine, Except.ok.injEq]
    exact ⟨fun same => same ▸ decodes, fun further => (only other further).symm⟩
  · have valued := (agrees (codes.map characterOf)).mpr ⟨codes, decodes, rfl⟩
    obtain ⟨others, isRead, same⟩ := map_eq_ok_iff.mp valued
    exact (fallsShort_of_holdsMisread holds decodes isRead).map_ne same
  · rw [doubleQuotedValue, read fine, Except.map, Except.ok.injEq]
    refine ⟨fun same => ⟨codes, decodes, same⟩, ?_⟩
    rintro ⟨others, further, rfl⟩
    rw [only others further]

/-- One octal digit behind a zero is left over, and stands for itself. -/
theorem doubleQuotedValue_shortOctal :
    Decodes ['\\', '0', '1'] [1] ∧ doubleQuotedValue ['\\', '0', '1'] = .ok ['\x00', '1'] ∧
      doubleQuotedValue ['\\', '0', '1'] ≠ .ok ([1].map characterOf) := by
  have ends : ∀ c ∈ ([] : List Char).head?, isOctal c = false := nofun
  exact ⟨.escape (.octal (digitRun_zero rfl ends)) .done, rfl, nofun⟩

end FormHarvest
