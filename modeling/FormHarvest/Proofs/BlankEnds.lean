import FormHarvest.Proofs.AccountedSources
import FormHarvest.Proofs.Nowdocs

namespace FormHarvest

/-- What is measured at the start of a text, if it ends within a part of it, ends there as well when a
space or a tab comes behind that part. -/
def EndsAtBlanks (length? : List Char → Option Nat) : Prop :=
  ∀ ⦃front : List Char⦄ (back : List Char) ⦃rest : List Char⦄ ⦃blank : Char⦄, isSpaceOrTab blank = true →
    (∀ n ∈ length? (front ++ back), n ≤ front.length) →
    length? (front ++ blank :: rest) = length? (front ++ back)

theorem eq_of_isSpaceOrTab {blank : Char} (space : isSpaceOrTab blank = true) : blank = ' ' ∨ blank = '\t' := by
  simpa [isSpaceOrTab] using space

/-- No word, name or number goes on with a space or a tab. -/
theorem not_part_of_isSpaceOrTab {blank : Char} (space : isSpaceOrTab blank = true) :
    isNameStart blank = false ∧ isNamePart blank = false ∧ isDecimal blank = false ∧ isHex blank = false ∧
      isOctal blank = false ∧ isWord blank = false ∧ isLetterLike blank = false := by
  obtain rfl | rfl := eq_of_isSpaceOrTab space <;> decide

theorem isBlank_of_isSpaceOrTab {blank : Char} (space : isSpaceOrTab blank = true) : isBlank blank = true := by
  obtain rfl | rfl := eq_of_isSpaceOrTab space <;> decide

section Measures

variable {front back rest : List Char} {blank : Char}

/-- A run of characters that stops within a part of a text stops there as well before what cannot belong
to it. -/
theorem takeWhile_append_of_within {p : Char → Bool} (stops : p blank = false)
    (within : ((front ++ back).takeWhile p).length ≤ front.length) :
    (front ++ blank :: rest).takeWhile p = (front ++ back).takeWhile p := by
  induction front with
  | nil =>
    have nothing : ([] ++ back).takeWhile p = [] := List.eq_nil_of_length_eq_zero (Nat.le_zero.mp within)
    rw [nothing, List.nil_append, List.takeWhile_cons_of_neg (by simp [stops])]
  | cons c front ih =>
    simp only [List.cons_append, List.takeWhile_cons] at within ⊢
    split
    · rename_i holds
      rw [if_pos holds, List.length_cons, List.length_cons] at within
      rw [ih (Nat.le_of_succ_le_succ within)]
    · rfl

theorem eq_none_of_within_nil {length? : List Char → Option Nat}
    (positive : ∀ {n}, length? back = some n → 0 < n)
    (within : ∀ n ∈ length? ([] ++ back), n ≤ ([] : List Char).length) : length? ([] ++ back) = none :=
  Option.eq_none_iff_forall_ne_some.mpr fun n found => Nat.not_le.mpr (positive found) (within n found)

namespace EndsAtBlanks

/-- A measure that is always there. -/
theorem of_nat {length : List Char → Nat}
    (ends : ∀ {front back rest : List Char} {blank : Char}, isSpaceOrTab blank = true →
      length (front ++ back) ≤ front.length → length (front ++ blank :: rest) = length (front ++ back)) :
    EndsAtBlanks fun text => some (length text) :=
  fun _ _ _ _ space within => congrArg some (ends space (within _ rfl))

theorem nat {length : List Char → Nat} (ends : EndsAtBlanks fun text => some (length text)) (back : List Char)
    (space : isSpaceOrTab blank = true) (within : length (front ++ back) ≤ front.length) :
    length (front ++ blank :: rest) = length (front ++ back) :=
  Option.some.inj (ends back space (by simpa using within))

end EndsAtBlanks

/-! ### Names and variables -/

theorem endsAtBlanks_segmentLength? : EndsAtBlanks segmentLength? := by
  intro front back rest blank space within
  obtain ⟨noStart, noPart, -⟩ := not_part_of_isSpaceOrTab space
  cases front with
  | nil =>
    rw [eq_none_of_within_nil segmentLength?_pos within]
    simp [segmentLength?, noStart]
  | cons c front =>
    simp only [List.cons_append, segmentLength?] at within ⊢
    split
    · rename_i starts
      rw [if_pos starts] at within
      rw [takeWhile_append_of_within noPart (by simpa using within)]
    · rfl

theorem segmentsLength_of_ne {c : Char} (other : c ≠ '\\') (text : List Char) : segmentsLength (c :: text) = 0 := by
  rw [segmentsLength]
  exact fun _ same => absurd (List.cons.inj same).1 other

theorem endsAtBlanks_segmentsLength : EndsAtBlanks fun text => some (segmentsLength text) := by
  refine .of_nat fun {front back rest blank} space within => ?_
  induction size : front.length using Nat.strong_induction_on generalizing front with
  | _ size ih =>
    subst size
    cases front with
    | nil =>
      have dark : blank ≠ '\\' := by obtain rfl | rfl := eq_of_isSpaceOrTab space <;> decide
      rw [Nat.le_zero.mp within, List.nil_append, segmentsLength_of_ne dark]
    | cons c front =>
      simp only [List.cons_append, List.length_cons] at within ⊢
      by_cases slash : c = '\\'
      · subst slash
        simp only [segmentsLength] at within ⊢
        cases segment : segmentLength? (front ++ back) with
        | none =>
          rw [endsAtBlanks_segmentLength? back space (by simp [segment]), segment]
        | some n =>
          simp only [segment] at within
          have inside : n ≤ front.length := by omega
          rw [endsAtBlanks_segmentLength? back space (by simpa [segment] using inside), segment]
          simp only [List.drop_append_of_le_length inside] at within ⊢
          have shorter : (front.drop n).length = front.length - n := List.length_drop
          rw [ih _ (by simp only [List.length_cons]; omega) (by omega) rfl]
      · rw [segmentsLength_of_ne slash, segmentsLength_of_ne slash]

/-- The length of a name whose first segment stands behind `lead` characters. -/
def nameFrom? (lead : Nat) (text : List Char) : Option Nat :=
  (segmentLength? (text.drop lead)).map fun n => lead + n + segmentsLength (text.drop (lead + n))

theorem nameFrom?_append {lead : Nat} (space : isSpaceOrTab blank = true) (fits : lead ≤ front.length)
    (within : ∀ n ∈ nameFrom? lead (front ++ back), n ≤ front.length) :
    nameFrom? lead (front ++ blank :: rest) = nameFrom? lead (front ++ back) := by
  simp only [nameFrom?, List.drop_append_of_le_length fits] at within ⊢
  have behind : (front.drop lead).length = front.length - lead := List.length_drop
  cases segment : segmentLength? (front.drop lead ++ back) with
  | none => rw [endsAtBlanks_segmentLength? back space (by simp [segment]), segment]; rfl
  | some n =>
    have inside := within _ (Option.map_eq_some_iff.mpr ⟨n, segment, rfl⟩)
    have more : lead + n ≤ front.length := by omega
    rw [List.drop_append_of_le_length more] at inside
    rw [endsAtBlanks_segmentLength? back space (by rw [segment]; rintro _ ⟨rfl⟩; omega), segment,
      Option.map_some, Option.map_some, List.drop_append_of_le_length more, List.drop_append_of_le_length more,
      endsAtBlanks_segmentsLength.nat back space (by rw [List.length_drop]; omega)]

theorem endsAtBlanks_nameLength? : EndsAtBlanks nameLength? := by
  intro front back rest blank space within
  cases front with
  | nil =>
    rw [eq_none_of_within_nil nameLength?_pos within, List.nil_append]
    obtain rfl | rfl := eq_of_isSpaceOrTab space <;> rfl
  | cons c front =>
    have atLead (text : List Char) :
        nameLength? (c :: front ++ text) = nameFrom? (if c == '\\' then 1 else 0) (c :: front ++ text) := rfl
    rw [atLead] at within ⊢
    rw [atLead, nameFrom?_append space (by split <;> simp) within]

theorem endsAtBlanks_variableLength? : EndsAtBlanks variableLength? := by
  intro front back rest blank space within
  cases front with
  | nil =>
    rw [eq_none_of_within_nil variableLength?_pos within, List.nil_append]
    obtain rfl | rfl := eq_of_isSpaceOrTab space <;> rfl
  | cons c front =>
    simp only [List.cons_append] at within ⊢
    by_cases dollar : c = '$'
    · subst dollar
      simp only [variableLength?] at within ⊢
      rw [endsAtBlanks_segmentLength? back space fun n found => ?_]
      have := within _ (Option.map_eq_some_iff.mpr ⟨n, found, rfl⟩)
      simpa using this
    · rw [variableLength?_eq_none _ dollar, variableLength?_eq_none _ dollar]

/-! ### Numbers -/

theorem endsAtBlanks_digitRunLength : EndsAtBlanks fun text => some (digitRunLength text) := by
  refine .of_nat fun {front back rest blank} space within => ?_
  have noDigit : isDecimal blank = false := (not_part_of_isSpaceOrTab space).2.2.1
  cases front with
  | nil => rw [Nat.le_zero.mp within, List.nil_append]; simp [digitRunLength, noDigit]
  | cons c front =>
    simp only [List.cons_append, digitRunLength, List.length_cons] at within ⊢
    split
    · rename_i digit
      rw [if_pos digit] at within
      rw [takeWhile_append_of_within _ (Nat.le_of_succ_le_succ within)]
      obtain rfl | rfl := eq_of_isSpaceOrTab space <;> decide
    · rfl

/-- The length of an exponent whose digits stand behind a mark and a sign, which is `sign` characters
long. -/
def exponentFrom (sign : Nat) (text : List Char) : Nat :=
  let digits := ((text.drop sign).takeWhile isDecimal).length
  if 0 < digits then sign + digits + 1 else 0

theorem exponentFrom_append {sign : Nat} (space : isSpaceOrTab blank = true) (fits : sign ≤ front.length)
    (within : exponentFrom sign (front ++ back) ≤ front.length + 1) :
    exponentFrom sign (front ++ blank :: rest) = exponentFrom sign (front ++ back) := by
  simp only [exponentFrom, List.drop_append_of_le_length fits] at within ⊢
  have behind : (front.drop sign).length = front.length - sign := List.length_drop
  have inside : ((front.drop sign ++ back).takeWhile isDecimal).length ≤ (front.drop sign).length := by
    split at within <;> omega
  rw [takeWhile_append_of_within (not_part_of_isSpaceOrTab space).2.2.1 inside]

theorem exponentFrom_ne_one (sign : Nat) (text : List Char) : exponentFrom sign text ≠ 1 := by
  unfold exponentFrom
  dsimp only
  split <;> omega

/-- How long the sign of an exponent is. -/
def signLength (text : List Char) : Nat := if text.head? == some '+' || text.head? == some '-' then 1 else 0

theorem exponentLength_cons (e : Char) (text : List Char) :
    exponentLength (e :: text) = if e == 'e' || e == 'E' then exponentFrom (signLength text) text else 0 := by
  by_cases marked : (e == 'e' || e == 'E') = true
  · simp [exponentLength, exponentFrom, signLength, marked]
  · simp [exponentLength, marked]

theorem endsAtBlanks_exponentLength : EndsAtBlanks fun text => some (exponentLength text) := by
  refine .of_nat fun {front back rest blank} space within => ?_
  have noDigit : isDecimal blank = false := (not_part_of_isSpaceOrTab space).2.2.1
  match front with
  | [] =>
    rw [Nat.le_zero.mp within, List.nil_append]
    obtain rfl | rfl := eq_of_isSpaceOrTab space <;> rfl
  | [e] =>
    have unsigned : signLength (blank :: rest) = 0 := by
      obtain rfl | rfl := eq_of_isSpaceOrTab space <;> rfl
    simp only [List.cons_append, List.nil_append, exponentLength_cons, unsigned, List.length_singleton] at within ⊢
    split
    · rename_i marked
      rw [if_pos marked] at within
      have nothing : exponentFrom (signLength back) back = 0 := by
        have := exponentFrom_ne_one (signLength back) back
        omega
      rw [nothing]
      simp [exponentFrom, noDigit]
    · rfl
  | e :: c :: front =>
    have sameSign (text : List Char) : signLength (c :: (front ++ text)) = signLength [c] := rfl
    have fits : signLength [c] ≤ (c :: front).length := by
      unfold signLength
      split <;> simp
    simp only [List.cons_append, exponentLength_cons, sameSign, List.length_cons] at within ⊢
    split
    · rename_i marked
      rw [if_pos marked] at within
      have cut : exponentFrom (signLength [c]) (c :: front ++ blank :: rest)
          = exponentFrom (signLength [c]) (c :: front ++ back) := exponentFrom_append space fits within
      exact cut
    · rfl

/-- The digits of a number in a marked base, which a mark stands for. -/
def isMarkedDigit (mark c : Char) : Bool :=
  if mark == 'x' || mark == 'X' then isHex c || c == '_'
  else if mark == 'b' || mark == 'B' then c == '0' || c == '1' || c == '_'
  else if mark == 'o' || mark == 'O' then isOctal c || c == '_'
  else false

theorem markedNumberLength_zero (mark : Char) (text : List Char) :
    markedNumberLength ('0' :: mark :: text) =
      let digits := (text.takeWhile (isMarkedDigit mark)).length
      if 0 < digits then digits + 2 else 0 := by
  by_cases hexadecimal : (mark == 'x' || mark == 'X') = true
  · have same : isMarkedDigit mark = fun c => isHex c || c == '_' := by
      funext c
      simp [isMarkedDigit, hexadecimal]
    simp only [markedNumberLength, if_pos hexadecimal, same]
  by_cases binary : (mark == 'b' || mark == 'B') = true
  · have same : isMarkedDigit mark = fun c => c == '0' || c == '1' || c == '_' := by
      funext c
      simp [isMarkedDigit, hexadecimal, binary]
    simp only [markedNumberLength, if_neg hexadecimal, if_pos binary, same]
  by_cases octal : (mark == 'o' || mark == 'O') = true
  · have same : isMarkedDigit mark = fun c => isOctal c || c == '_' := by
      funext c
      simp [isMarkedDigit, hexadecimal, binary, octal]
    simp only [markedNumberLength, if_neg hexadecimal, if_neg binary, if_pos octal, same]
  · have same : isMarkedDigit mark = fun _ => false := by
      funext c
      simp [isMarkedDigit, hexadecimal, binary, octal]
    have none_ : text.takeWhile (fun _ => false) = [] := by cases text <;> rfl
    simp only [markedNumberLength, if_neg hexadecimal, if_neg binary, if_neg octal, same, none_, List.length_nil]

theorem markedNumberLength_of_ne {c : Char} (other : c ≠ '0') (text : List Char) :
    markedNumberLength (c :: text) = 0 := by
  unfold markedNumberLength
  split
  · rename_i same
    exact absurd (List.cons.inj same).1 other
  · rfl

theorem isMarkedDigit_blank (mark : Char) (space : isSpaceOrTab blank = true) : isMarkedDigit mark blank = false := by
  unfold isMarkedDigit
  obtain rfl | rfl := eq_of_isSpaceOrTab space <;> (repeat' split) <;> decide

theorem isMarkedDigit_of_blank (c : Char) (space : isSpaceOrTab blank = true) : isMarkedDigit blank c = false := by
  obtain rfl | rfl := eq_of_isSpaceOrTab space <;> rfl

theorem endsAtBlanks_markedNumberLength : EndsAtBlanks fun text => some (markedNumberLength text) := by
  refine .of_nat fun {front back rest blank} space within => ?_
  match front with
  | [] =>
    rw [Nat.le_zero.mp within, List.nil_append]
    obtain rfl | rfl := eq_of_isSpaceOrTab space <;> rfl
  | [c] =>
    by_cases zero : c = '0'
    · subst zero
      have nothing : markedNumberLength (['0'] ++ back) = 0 := by
        cases back with
        | nil => rfl
        | cons mark back =>
          simp only [List.cons_append, List.nil_append, markedNumberLength_zero, List.length_singleton] at within ⊢
          by_cases filled : 0 < (back.takeWhile (isMarkedDigit mark)).length
          · rw [if_pos filled] at within
            omega
          · rw [if_neg filled]
      have none_ : rest.takeWhile (isMarkedDigit blank) = [] := by
        cases rest with
        | nil => rfl
        | cons c rest => simp [isMarkedDigit_of_blank c space]
      rw [nothing, List.cons_append, List.nil_append, markedNumberLength_zero, none_]
      rfl
    · simp only [List.cons_append, markedNumberLength_of_ne zero]
  | c :: mark :: front =>
    by_cases zero : c = '0'
    · subst zero
      simp only [List.cons_append, markedNumberLength_zero, List.length_cons] at within ⊢
      have inside : ((front ++ back).takeWhile (isMarkedDigit mark)).length ≤ front.length := by
        split at within <;> omega
      rw [takeWhile_append_of_within (isMarkedDigit_blank mark space) inside]
    · simp only [List.cons_append, markedNumberLength_of_ne zero]

/-- The length of a point and the digits behind it. -/
def pointLength : List Char → Nat
  | '.' :: text => digitRunLength text + 1
  | _ => 0

theorem pointLength_of_ne {c : Char} (other : c ≠ '.') (text : List Char) : pointLength (c :: text) = 0 := by
  unfold pointLength
  split
  · rename_i same
    exact absurd (List.cons.inj same).1 other
  · rfl

theorem endsAtBlanks_pointLength : EndsAtBlanks fun text => some (pointLength text) := by
  refine .of_nat fun {front back rest blank} space within => ?_
  cases front with
  | nil =>
    rw [Nat.le_zero.mp within, List.nil_append]
    obtain rfl | rfl := eq_of_isSpaceOrTab space <;> rfl
  | cons c front =>
    by_cases point : c = '.'
    · subst point
      exact congrArg (· + 1) (endsAtBlanks_digitRunLength.nat back space (Nat.le_of_succ_le_succ within))
    · rw [List.cons_append, List.cons_append, pointLength_of_ne point, pointLength_of_ne point]

/-- A number in a marked base, or whole digits and a point with digits, one of the two with digits, and
an exponent. -/
theorem numberLength?_eq (text : List Char) :
    numberLength? text =
      if 0 < markedNumberLength text then some (markedNumberLength text)
      else
        let whole := digitRunLength text
        let length := whole + pointLength (text.drop whole)
        if whole = 0 ∧ length ≤ 1 then none else some (length + exponentLength (text.drop length)) := by
  unfold numberLength?
  extract_lets marked whole point fraction length length'
  have behind : length = length' := by
    change whole + point + fraction = whole + pointLength (text.drop whole)
    cases rest : text.drop whole with
    | nil => simp [point, fraction, rest, pointLength]
    | cons c others =>
      by_cases isPoint : c = '.'
      · have others' : text.drop (whole + 1) = others := by
          rw [← List.drop_drop, rest]
          rfl
        subst isPoint
        simp only [point, fraction, rest, pointLength, others', List.head?_cons, beq_self_eq_true, if_true]
        omega
      · simp [point, fraction, rest, pointLength_of_ne isPoint, isPoint]
  have nothing : (decide (whole = 0) && decide (fraction = 0)) = true ↔ whole = 0 ∧ length' ≤ 1 := by
    have short : point ≤ 1 := by unfold point; split <;> omega
    have pointless : point = 0 → fraction = 0 := fun none_ => if_neg (by omega)
    rw [Bool.and_eq_true, decide_eq_true_eq, decide_eq_true_eq]
    refine and_congr_right fun _ => ⟨fun _ => by omega, fun _ => by omega⟩
  rw [behind]
  simp only [nothing]
  rfl

theorem endsAtBlanks_numberLength? : EndsAtBlanks numberLength? := by
  intro front back rest blank space within
  cases front with
  | nil =>
    rw [eq_none_of_within_nil numberLength?_pos within, List.nil_append]
    exact numberLength?_eq_none _ (not_part_of_isSpaceOrTab space).2.2.1
      (by obtain rfl | rfl := eq_of_isSpaceOrTab space <;> decide)
  | cons c front =>
    have filled : 0 < (c :: front).length := Nat.succ_pos _
    generalize c :: front = front at within filled ⊢
    rw [numberLength?_eq, numberLength?_eq]
    rw [numberLength?_eq] at within
    have marked : markedNumberLength (front ++ back) ≤ front.length := by
      split at within
      · exact within _ rfl
      · omega
    rw [endsAtBlanks_markedNumberLength.nat back space marked]
    split
    · rfl
    · rename_i unmarked
      rw [if_neg unmarked] at within
      extract_lets whole length at within
      have inside : length ≤ front.length := by
        split at within
        · omega
        · have := within _ rfl
          omega
      have wholeInside : whole ≤ front.length := le_trans (Nat.le_add_right _ _) inside
      have sameWhole : digitRunLength (front ++ blank :: rest) = whole :=
        endsAtBlanks_digitRunLength.nat back space wholeInside
      have samePoint :
          pointLength ((front ++ blank :: rest).drop whole) = pointLength ((front ++ back).drop whole) := by
        rw [List.drop_append_of_le_length wholeInside, List.drop_append_of_le_length wholeInside]
        refine endsAtBlanks_pointLength.nat back space ?_
        rw [← List.drop_append_of_le_length wholeInside, List.length_drop]
        omega
      simp only [sameWhole, samePoint]
      change (if whole = 0 ∧ length ≤ 1 then none else _) = if whole = 0 ∧ length ≤ 1 then none else _
      split
      · rfl
      · rename_i found
        rw [if_neg found] at within
        have all := within _ rfl
        rw [List.drop_append_of_le_length inside] at all
        rw [List.drop_append_of_le_length inside, List.drop_append_of_le_length inside,
          endsAtBlanks_exponentLength.nat back space (by rw [List.length_drop]; omega)]

/-! ### Signs -/

theorem isSpaceOrTab_of_mem_operator {op : String} (known : op ∈ operators) {c : Char} (member : c ∈ op.toList) :
    isSpaceOrTab c = false := by
  have all : operators.all (fun op => op.toList.all fun c => !isSpaceOrTab c) = true := by decide
  simpa using List.all_eq_true.mp (List.all_eq_true.mp all op known) c member

/-- What holds no blank and opens a text before a blank lies before it. -/
theorem prefix_of_prefix_append {dark : List Char} (whole : blank ∉ dark)
    (opens : dark <+: front ++ blank :: rest) : dark <+: front := by
  obtain ⟨tail, same⟩ := opens
  rcases List.append_eq_append_iff.mp same with ⟨inside, rfl, -⟩ | ⟨behind, rfl, atBlank⟩
  · exact List.prefix_append _ _
  · cases behind with
    | nil => simp
    | cons c behind =>
      obtain rfl : blank = c := (List.cons.inj atBlank).1
      exact absurd (List.mem_append_right _ List.mem_cons_self) whole

/-- The length of the operator at the start of a text. -/
def operatorLength? (text : List Char) : Option Nat := (operatorAt? text).map String.length

theorem endsAtBlanks_operatorLength? : EndsAtBlanks operatorLength? := by
  intro front back rest blank space within
  refine congrArg (Option.map String.length) ?_
  have inFront {op : String} (known : op ∈ operators) (opens : op.toList <+: front ++ blank :: rest) :
      op.toList <+: front :=
    prefix_of_prefix_append (fun member => by simpa [space] using isSpaceOrTab_of_mem_operator known member) opens
  cases found : operatorAt? (front ++ back) with
  | none =>
    refine List.find?_eq_none.mpr fun op known opens => ?_
    have opens := inFront known (List.isPrefixOf_iff_prefix.mp opens)
    exact List.find?_eq_none.mp found op known
      (List.isPrefixOf_iff_prefix.mpr (opens.trans (List.prefix_append _ _)))
  | some op =>
    obtain ⟨opens, before, after, parts, others⟩ := List.find?_eq_some_iff_append.mp found
    refine List.find?_eq_some_iff_append.mpr ⟨?_, before, after, parts, fun other member => ?_⟩
    · have short : op.toList.length ≤ front.length :=
        String.length_toList ▸ within _ (Option.map_eq_some_iff.mpr ⟨op, found, rfl⟩)
      have inFront := List.prefix_of_prefix_length_le (List.isPrefixOf_iff_prefix.mp opens)
        (List.prefix_append front back) short
      exact List.isPrefixOf_iff_prefix.mpr (inFront.trans (List.prefix_append _ _))
    · have known : other ∈ operators := parts ▸ List.mem_append_left _ member
      refine Bool.not_eq_true' _ ▸ Bool.eq_false_iff.mpr fun opens => ?_
      have opens := (inFront known (List.isPrefixOf_iff_prefix.mp opens)).trans (List.prefix_append _ back)
      have := others other member
      simp [List.isPrefixOf_iff_prefix.mpr opens] at this

/-- The length of the mark that opens an attribute. -/
def attributeLength? (text : List Char) : Option Nat := if ['#', '['].isPrefixOf text then some 2 else none

theorem endsAtBlanks_attributeLength? : EndsAtBlanks attributeLength? := by
  intro front back rest blank space within
  have dark : blank ∉ ['#', '['] := by obtain rfl | rfl := eq_of_isSpaceOrTab space <;> decide
  refine if_congr ?_ rfl rfl
  rw [List.isPrefixOf_iff_prefix, List.isPrefixOf_iff_prefix]
  constructor
  · exact fun opens => (prefix_of_prefix_append dark opens).trans (List.prefix_append _ _)
  · intro opens
    have short : 2 ≤ front.length := within 2 (if_pos (List.isPrefixOf_iff_prefix.mpr opens))
    exact (List.prefix_of_prefix_length_le opens (List.prefix_append _ _) short).trans (List.prefix_append _ _)

/-- The reading of a text by a measure, or by another reading where there is nothing to measure. -/
def Scan.firstOf (length? : List Char → Option Nat) (found : Nat → List Char → Scan)
    (otherwise : List Char → Scan) (text : List Char) : Scan :=
  match length? text with
  | some n => found n text
  | none => otherwise text

/-- A sign or another character. -/
def scanSign (text : List Char) : Scan :=
  if text.head?.any isPunctuation then Scan.verbatim .punctuation 1 text else Scan.verbatim .unknown 1 text

theorem scanPlain_eq :
    scanPlain =
      Scan.firstOf variableLength? (fun n text => ⟨n, some { kind := .variable, text := (text.take n).drop 1 }, .php⟩)
        (Scan.firstOf numberLength? (Scan.verbatim .number)
          (Scan.firstOf nameLength? (Scan.verbatim .name)
            (Scan.firstOf attributeLength? (Scan.verbatim .punctuation)
              (Scan.firstOf operatorLength? (Scan.verbatim .operator) scanSign)))) := by
  funext text
  simp only [scanPlain, Scan.firstOf, attributeLength?, operatorLength?, scanSign]
  cases variableLength? text with
  | some n => rfl
  | none =>
    cases numberLength? text with
    | some n => rfl
    | none =>
      cases nameLength? text with
      | some n => rfl
      | none =>
        by_cases marked : ['#', '['].isPrefixOf text = true
        · simp only [if_pos marked]
        · simp only [if_neg marked]
          cases operatorAt? text <;> rfl

/-- What is read at the start of a text, if it ends within a part of it, is read as well when a space or a tab
comes behind that part. -/
def ReadsToBlanks (read : List Char → Scan) : Prop :=
  ∀ ⦃front : List Char⦄ (back : List Char) ⦃rest : List Char⦄ ⦃blank : Char⦄, isSpaceOrTab blank = true →
    front ≠ [] → (read (front ++ back)).length ≤ front.length → read (front ++ blank :: rest) = read (front ++ back)

theorem EndsAtBlanks.readsToBlanks {length? : List Char → Option Nat} {found : Nat → List Char → Scan}
    {otherwise : List Char → Scan} (ends : EndsAtBlanks length?) (sized : ∀ n text, (found n text).length = n)
    (cut : ∀ {n} {front : List Char}, n ≤ front.length → ∀ text, found n (front ++ text) = found n front)
    (others : ReadsToBlanks otherwise) : ReadsToBlanks (Scan.firstOf length? found otherwise) := by
  intro front back rest blank space filled within
  unfold Scan.firstOf at within ⊢
  cases measured : length? (front ++ back) with
  | some n =>
    simp only [measured, sized] at within
    rw [ends back space (by rw [measured]; rintro _ ⟨rfl⟩; exact within), measured]
    simp only [cut within]
  | none =>
    simp only [measured] at within
    rw [ends back space (by simp [measured]), measured]
    exact others back space filled within

theorem verbatim_append (kind : TokenKind) {n : Nat} (short : n ≤ front.length) (text : List Char) :
    Scan.verbatim kind n (front ++ text) = Scan.verbatim kind n front := by
  simp only [Scan.verbatim, List.take_append_of_le_length short]

theorem readsToBlanks_scanSign : ReadsToBlanks scanSign := by
  intro front back rest blank space filled within
  have one : 1 ≤ front.length := List.length_pos_iff.mpr filled
  simp only [scanSign, List.head?_append_of_ne_nil _ filled, verbatim_append _ one]

theorem readsToBlanks_scanPlain : ReadsToBlanks scanPlain := by
  rw [scanPlain_eq]
  have verbatim (kind : TokenKind) (n : Nat) (text : List Char) : (Scan.verbatim kind n text).length = n := rfl
  refine endsAtBlanks_variableLength?.readsToBlanks (fun _ _ => rfl)
    (fun short text => by rw [List.take_append_of_le_length short])
    (endsAtBlanks_numberLength?.readsToBlanks (verbatim _) (verbatim_append _)
      (endsAtBlanks_nameLength?.readsToBlanks (verbatim _) (verbatim_append _)
        (endsAtBlanks_attributeLength?.readsToBlanks (verbatim _) (verbatim_append _)
          (endsAtBlanks_operatorLength?.readsToBlanks (verbatim _) (verbatim_append _) readsToBlanks_scanSign))))

end Measures

end FormHarvest
