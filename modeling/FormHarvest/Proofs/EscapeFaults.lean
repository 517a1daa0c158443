import FormHarvest.Php.Parser
import Mathlib

namespace FormHarvest

/-- At a place an escape names a code point whose number does not fit a signed number of 32 bits. -/
def NamesHugeCodePoint (place : List Char) : Prop :=
  ∃ digits rest n, place = '\\' :: 'u' :: '{' :: (digits ++ '}' :: rest) ∧ '}' ∉ digits ∧
    readHexInteger? digits = some n ∧ (n < -0x80000000 ∨ 0x7FFFFFFF < n)

/-- A text between double quotes, read from its start, comes to an escape that names a code point
which is too large. A backslash takes along what belongs to its escape. -/
inductive HoldsHugeCodePoint : List Char → Prop
  | here {place : List Char} : NamesHugeCodePoint place → HoldsHugeCodePoint place
  | plain {c : Char} {rest : List Char} :
    c ≠ '\\' → HoldsHugeCodePoint rest → HoldsHugeCodePoint (c :: rest)
  | backslash {rest : List Char} :
    escapeAfter? rest = .ok none → HoldsHugeCodePoint rest → HoldsHugeCodePoint ('\\' :: rest)
  | escape {rest : List Char} {code taken : Nat} :
    escapeAfter? rest = .ok (some (code, taken)) → HoldsHugeCodePoint (rest.drop taken) →
      HoldsHugeCodePoint ('\\' :: rest)

theorem escapedCodePoint?_eq_error_iff {n : Int} {fault : EscapeFault} :
    escapedCodePoint? n = .error fault ↔ n < -0x80000000 ∨ 0x7FFFFFFF < n := by
  cases fault
  unfold escapedCodePoint?
  split
  · rename_i huge
    exact ⟨fun _ => huge, fun _ => rfl⟩
  · rename_i fits
    refine ⟨fun failed => ?_, fun huge => absurd huge fits⟩
    split at failed <;> cases failed

theorem map_eq_error_iff {ε α β : Type} {f : α → β} {result : Except ε α} {fault : ε} :
    result.map f = .error fault ↔ result = .error fault := by
  cases result with
  | error other => exact ⟨fun same => by cases same; rfl, fun same => by cases same; rfl⟩
  | ok value => exact ⟨nofun, nofun⟩

theorem map_eq_ok_iff {ε α β : Type} {f : α → β} {result : Except ε α} {b : β} :
    result.map f = .ok b ↔ ∃ a, result = .ok a ∧ f a = b := by
  cases result <;> simp [Except.map]

theorem takeWhile_ne_append {c : Char} {front : List Char} (absent : c ∉ front) (rest : List Char) :
    (front ++ c :: rest).takeWhile (· != c) = front := by
  rw [List.takeWhile_append_of_pos fun other member => by
    simpa using fun same : other = c => absent (same ▸ member)]
  simp

/-- Behind all characters that differ from a given one comes that one, unless the text ends. -/
theorem exists_takeWhile_ne {c : Char} {text : List Char}
    (shorter : (text.takeWhile (· != c)).length ≠ text.length) :
    ∃ rest, text = text.takeWhile (· != c) ++ c :: rest ∧ c ∉ text.takeWhile (· != c) := by
  have parts := List.takeWhile_append_dropWhile (p := (· != c)) (l := text)
  cases behind : text.dropWhile (· != c) with
  | nil =>
    rw [behind, List.append_nil] at parts
    exact absurd (congrArg List.length parts) shorter
  | cons first rest =>
    have atFirst := List.head?_dropWhile_not (· != c) text
    rw [behind] at atFirst
    obtain rfl : first = c := by simpa using atFirst
    refine ⟨rest, by rw [behind] at parts; exact parts.symm, fun member => ?_⟩
    simpa using List.mem_takeWhile_imp member

theorem codePointEscape?_eq_error_iff {after : List Char} {fault : EscapeFault} :
    codePointEscape? after = .error fault ↔ NamesHugeCodePoint ('\\' :: after) := by
  constructor
  · intro failed
    unfold codePointEscape? at failed
    split at failed
    case h_2 => cases failed
    rename_i rest
    extract_lets digits at failed
    split at failed
    · cases failed
    rename_i shorter
    split at failed
    · cases failed
    rename_i n written
    obtain ⟨behind, parts, absent⟩ := exists_takeWhile_ne shorter
    have huge := escapedCodePoint?_eq_error_iff.mp (map_eq_error_iff.mp failed)
    exact ⟨digits, behind, n, by rw [parts], absent, written, huge⟩
  · rintro ⟨digits, rest, n, place, absent, written, huge⟩
    obtain rfl : after = 'u' :: '{' :: (digits ++ '}' :: rest) := by simpa using place
    have shorter : digits.length ≠ (digits ++ '}' :: rest).length := by
      rw [List.length_append, List.length_cons]
      omega
    simp only [codePointEscape?, takeWhile_ne_append absent rest, if_neg shorter, written]
    exact map_eq_error_iff.mpr (escapedCodePoint?_eq_error_iff.mpr huge)

theorem escapeAfter?_eq_error_iff {after : List Char} {fault : EscapeFault} :
    escapeAfter? after = .error fault ↔ NamesHugeCodePoint ('\\' :: after) :=
  map_eq_error_iff.trans codePointEscape?_eq_error_iff

theorem doubleQuotedFrom_eq_error_iff {skip : Nat} {text : List Char} {fault : EscapeFault} :
    doubleQuotedFrom skip text = .error fault ↔ HoldsHugeCodePoint (text.drop skip) := by
  induction text generalizing skip with
  | nil =>
    rw [List.drop_nil, doubleQuotedFrom]
    refine ⟨nofun, fun holds => ?_⟩
    cases holds with
    | here huge => obtain ⟨_, _, _, place, -⟩ := huge; cases place
  | cons c rest ih =>
    cases skip with
    | succ skip => exact ih
    | zero =>
      rw [List.drop_zero]
      by_cases isBackslash : c = '\\'
      · subst isBackslash
        simp only [doubleQuotedFrom, beq_self_eq_true, if_true]
        cases escape : escapeAfter? rest with
        | error other =>
          cases fault
          exact ⟨fun _ => .here (escapeAfter?_eq_error_iff.mp escape), fun _ => rfl⟩
        | ok found =>
          have noFault : ¬NamesHugeCodePoint ('\\' :: rest) := fun huge => by
            have failed : escapeAfter? rest = .error fault := escapeAfter?_eq_error_iff.mpr huge
            rw [escape] at failed
            cases failed
          rcases found with _ | ⟨d, taken⟩
          · refine (map_eq_error_iff.trans ih).trans ⟨.backslash escape, fun holds => ?_⟩
            cases holds with
            | here huge => exact absurd huge noFault
            | plain other => exact absurd rfl other
            | backslash _ holds => exact holds
            | escape other => rw [escape] at other; cases other
          · refine (map_eq_error_iff.trans ih).trans ⟨.escape escape, fun holds => ?_⟩
            cases holds with
            | here huge => exact absurd huge noFault
            | plain other => exact absurd rfl other
            | backslash other => rw [escape] at other; cases other
            | escape other holds => rw [escape] at other; cases other; exact holds
      · simp only [doubleQuotedFrom, beq_eq_false_iff_ne.mpr isBackslash, Bool.false_eq_true, if_false]
        refine (map_eq_error_iff.trans ih).trans ⟨.plain isBackslash, fun holds => ?_⟩
        cases holds with
        | here huge => obtain ⟨_, _, _, place, -⟩ := huge; cases place; exact absurd rfl isBackslash
        | plain _ holds => exact holds
        | backslash => exact absurd rfl isBackslash
        | escape => exact absurd rfl isBackslash

/-- At the start of a piece of code stands a text in double quotes, or a block text that is read like
one, with a body. -/
inductive OpensDoubleQuoted : List Char → List Char → Prop
  | quotes (rest : List Char) :
    OpensDoubleQuoted ('"' :: rest) (quotedBody (quotedLength '"' rest + 1) ('"' :: rest))
  | block {text : List Char} {start : BlockStart} :
    blockStart? text = some start → start.quote ≠ some '\'' →
      OpensDoubleQuoted text (blockText start text).1

theorem doubleQuoted_eq_error_iff {length : Nat} {body : List Char} {fault : EscapeFault} :
    Scan.doubleQuoted length body = .error fault ↔ HoldsHugeCodePoint body :=
  map_eq_error_iff.trans (map_eq_error_iff.trans doubleQuotedFrom_eq_error_iff)

theorem exists_of_blockStart? {text : List Char} {start : BlockStart}
    (opened : blockStart? text = some start) : ∃ rest, text = '<' :: '<' :: '<' :: rest := by
  unfold blockStart? at opened
  split at opened
  · rename_i isPrefix
    obtain ⟨rest, rfl⟩ := List.isPrefixOf_iff_prefix.mp isPrefix
    exact ⟨rest, rfl⟩
  · cases opened

theorem exists_scanPhp_eq_doubleQuoted {text body : List Char} (opens : OpensDoubleQuoted text body) :
    ∃ length, scanPhp text = Scan.doubleQuoted length body := by
  cases opens with
  | quotes rest => exact ⟨_, rfl⟩
  | @block _ start opened plain =>
    obtain ⟨rest, rfl⟩ := exists_of_blockStart? opened
    have noQuote : ¬(start.quote == some '\'') = true := by simpa using plain
    exact ⟨_, by simp only [scanPhp, opened, if_neg noQuote]; rfl⟩

/-- The only pieces of code that cannot be read are texts in double quotes and the like that hold an
escape with a code point which is too large. -/
theorem scanPhp_eq_error_iff {text : List Char} {fault : EscapeFault} :
    scanPhp text = .error fault ↔
      ∃ body, OpensDoubleQuoted text body ∧ HoldsHugeCodePoint body := by
  constructor
  · intro failed
    unfold scanPhp at failed
    split at failed
    · cases failed
    · cases failed
    · cases failed
    · cases failed
    · exact ⟨_, .quotes _, doubleQuoted_eq_error_iff.mp failed⟩
    · cases failed
    · split at failed
      · cases failed
      split at failed
      · cases failed
      split at failed
      · rename_i start opened
        simp only at failed
        split at failed
        · cases failed
        · rename_i plain
          exact ⟨_, .block opened (by simpa using plain), doubleQuoted_eq_error_iff.mp failed⟩
      · cases failed
  · rintro ⟨body, opens, holds⟩
    obtain ⟨length, scanned⟩ := exists_scanPhp_eq_doubleQuoted opens
    exact scanned ▸ doubleQuoted_eq_error_iff.mpr holds

/-- The reading of a source, piece by piece from a mode on, comes to a text with an escape whose code
point is too large. -/
inductive ReadsHugeCodePoint : SourceMode → List Char → Prop
  | here {text body : List Char} :
    OpensDoubleQuoted text body → HoldsHugeCodePoint body → ReadsHugeCodePoint .php text
  | behind {mode : SourceMode} {c : Char} {rest : List Char} {found : Scan} :
    scan mode (c :: rest) = .ok found →
      ReadsHugeCodePoint found.mode (rest.drop (found.length - 1)) → ReadsHugeCodePoint mode (c :: rest)

theorem not_opensDoubleQuoted_nil {body : List Char} : ¬OpensDoubleQuoted [] body := by
  intro opens
  cases opens with
  | block opened => obtain ⟨rest, impossible⟩ := exists_of_blockStart? opened; cases impossible

theorem piecesFrom_eq_error_iff {mode : SourceMode} {text : List Char} {fault : EscapeFault} :
    piecesFrom mode text = .error fault ↔ ReadsHugeCodePoint mode text := by
  cases fault
  fun_induction piecesFrom mode text with
  | case1 =>
    refine ⟨fun failed => (by cases failed), fun reads => ?_⟩
    cases reads with
    | here opens => exact absurd opens not_opensDoubleQuoted_nil
  | case2 mode c rest fault scanned =>
    refine ⟨fun _ => ?_, fun _ => by cases fault; rfl⟩
    cases mode with
    | html => cases scanned
    | php =>
      obtain ⟨body, opens, holds⟩ := scanPhp_eq_error_iff.mp scanned
      exact .here opens holds
  | case3 mode c rest found scanned fault failed ih =>
    cases fault
    exact ⟨fun _ => .behind scanned (ih.mp failed), fun _ => rfl⟩
  | case4 mode c rest found scanned raw others read ih =>
    refine ⟨fun failed => (by cases failed), fun reads => ?_⟩
    cases reads with
    | here opens holds =>
      have failed : scanPhp (c :: rest) = .error .codePointOverflow :=
        scanPhp_eq_error_iff.mpr ⟨_, opens, holds⟩
      rw [show scanPhp (c :: rest) = .ok found from scanned] at failed
      cases failed
    | behind other reads =>
      rw [scanned] at other
      cases other
      have failed := ih.mpr reads
      rw [read] at failed
      cases failed

/-- A source has trees, or is nested too deeply, exactly if its reading comes to no text with an escape
whose code point is too large. In no case does anything else go wrong. -/
theorem parseSource_ok_or_nesting_iff (path source : String) (limit : Nat) :
    ((∃ nodes log, parseSource path source limit = .ok (⟨path, nodes⟩, log)) ∨
        ∃ line, parseSource path source limit = .error (.nesting path line)) ↔
      ¬ReadsHugeCodePoint .html source.toList := by
  have readable : ReadsHugeCodePoint .html source.toList ↔
      sourceTokens source = .error .codePointOverflow :=
    piecesFrom_eq_error_iff.symm.trans map_eq_error_iff.symm
  rw [readable]
  unfold parseSource
  cases read : sourceTokens source with
  | error fault =>
    cases fault
    refine ⟨fun outcome => ?_, fun fine => absurd rfl fine⟩
    rcases outcome with ⟨_, _, parsed⟩ | ⟨_, failed⟩
    · cases parsed
    · cases failed
  | ok tokens =>
    refine ⟨fun _ failed => (nomatch failed), fun _ => ?_⟩
    cases parsed : parseTokens tokens limit with
    | error fault => exact .inr ⟨fault.line, by simp only [parsed]⟩
    | ok result => exact .inl ⟨result.1, _, by simp only [parsed]; rfl⟩

/-- A text in double quotes with an escape that names a code point which is too large. -/
def hugeCodePoint : String := "<?php $label = \"\\u\x7b80000000\x7d\";"

theorem parseSource_hugeCodePoint :
    parseSource "T.php" hugeCodePoint = .error (.escape .codePointOverflow) := by
  cbv

end FormHarvest
