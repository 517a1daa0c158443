import FormHarvest.Proofs.ParseSteps

namespace FormHarvest

/-! ### Opening and closing signs -/

def openers : List String := ["(", "[", "#[", openBrace]

def closers : List String := [")", "]", closeBrace]

namespace Token

/-- Whether a token is one of the given signs. -/
def isSignIn (token : Token) (signs : List String) : Bool := signs.any (isSign (some token))

/-- The sign that closes the bracket that a token opens. -/
def closing? (token : Token) : Option String :=
  if isSign (some token) "(" then some ")"
  else if isSign (some token) "[" || isSign (some token) "#[" then some "]"
  else if isSign (some token) openBrace then some closeBrace
  else none

/-- Whether a token closes a bracket. -/
def closes (token : Token) : Bool := token.isSignIn closers

variable {token : Token} {signs others : List String} {text close : String}

theorem isSignIn_of_isSign (sign : isSign (some token) text = true) (member : text ∈ signs) :
    token.isSignIn signs = true := List.any_eq_true.mpr ⟨text, member, sign⟩

theorem isSignIn_eq_false (sign : isSign (some token) text = true) (absent : text ∉ signs) :
    token.isSignIn signs = false := by
  refine List.any_eq_false.mpr fun other member => ?_
  have apart : text ≠ other := by
    rintro rfl
    exact absent member
  simp [isSign_eq_false_of_isSign apart sign]

theorem isSignIn_eq_false_of_disjoint (sign : token.isSignIn signs = true)
    (apart : ∀ text ∈ signs, text ∉ others) : token.isSignIn others = false := by
  obtain ⟨text, member, sign⟩ := List.any_eq_true.mp sign
  exact isSignIn_eq_false sign (apart text member)

theorem isSignIn_eq_false_of_kind (punctuation : token.kind ≠ .punctuation)
    (operator : token.kind ≠ .operator) : token.isSignIn signs = false := by
  refine List.any_eq_false.mpr fun text _ => ?_
  simp [isSign, punctuation, operator]

theorem closing?_isSome : token.closing?.isSome = token.isSignIn openers := by
  simp only [closing?, isSignIn, openers, List.any_cons, List.any_nil]
  cases isSign (some token) "(" <;> cases isSign (some token) "[" <;> cases isSign (some token) "#[" <;>
    cases isSign (some token) openBrace <;> rfl

theorem mem_closers_of_closing? (opens : token.closing? = some close) : close ∈ closers := by
  unfold closing? at opens
  split at opens
  · cases opens
    decide
  split at opens
  · cases opens
    decide
  split at opens
  · cases opens
    decide
  · cases opens

theorem closing?_eq_none (other : token.isSignIn openers = false) : token.closing? = none := by
  rwa [← closing?_isSome, Option.isSome_eq_false_iff, Option.isNone_iff_eq_none] at other

theorem closing?_eq_none_of_closes (closes : token.closes = true) : token.closing? = none :=
  closing?_eq_none (isSignIn_eq_false_of_disjoint closes (by decide))

theorem closes_eq_false_of_closing? (opens : token.closing? = some close) : token.closes = false := by
  cases closes : token.closes with
  | false => rfl
  | true => rw [closing?_eq_none_of_closes closes] at opens; cases opens

end Token

/-! ### Nested brackets -/

/-- Tokens whose brackets are properly nested. -/
inductive Level : List Token → Prop
  | nil : Level []
  | plain {token : Token} {rest : List Token} (noOpener : token.closing? = none)
    (noCloser : token.closes = false) : Level rest → Level (token :: rest)
  | group {opener closer : Token} {close : String} {inside rest : List Token}
    (opens : opener.closing? = some close) (closed : isSign (some closer) close = true) :
    Level inside → Level rest → Level (opener :: (inside ++ closer :: rest))

/-- Tokens in which every bracket that is opened is closed. Others may be closed that were opened
before them. -/
inductive Shut : List Token → Prop
  | nil : Shut []
  | plain {token : Token} {rest : List Token} (noOpener : token.closing? = none) :
    Shut rest → Shut (token :: rest)
  | group {opener closer : Token} {close : String} {inside rest : List Token}
    (opens : opener.closing? = some close) (closed : isSign (some closer) close = true) :
    Level inside → Shut rest → Shut (opener :: (inside ++ closer :: rest))

theorem Level.shut {tokens : List Token} (level : Level tokens) : Shut tokens := by
  induction level with
  | nil => exact .nil
  | plain noOpener _ _ ih => exact .plain noOpener ih
  | group opens closed inside _ _ ih => exact .group opens closed inside ih

namespace Shut

variable {first second tokens : List Token} {token : Token}

theorem append (left : Shut first) (right : Shut second) : Shut (first ++ second) := by
  induction left with
  | nil => exact right
  | plain noOpener _ ih => exact .plain noOpener ih
  | group opens closed inside _ ih =>
    rw [List.cons_append, List.append_assoc, List.cons_append]
    exact .group opens closed inside ih

theorem of_closer {close : String} (closed : isSign (some token) close = true) (member : close ∈ closers)
    (rest : Shut tokens) : Shut (token :: tokens) :=
  .plain (Token.closing?_eq_none_of_closes (Token.isSignIn_of_isSign closed member)) rest

theorem tail (shut : Shut (token :: tokens)) : Shut tokens := by
  cases shut with
  | plain _ rest => exact rest
  | group opens closed inside rest =>
    exact inside.shut.append (.of_closer closed (Token.mem_closers_of_closing? opens) rest)

theorem exists_group {close : String} (shut : Shut (token :: tokens)) (opens : token.closing? = some close) :
    ∃ inside closer rest, tokens = inside ++ closer :: rest ∧ isSign (some closer) close = true ∧
      Level inside ∧ Shut rest := by
  cases shut with
  | plain noOpener _ => rw [noOpener] at opens; cases opens
  | group other closed inside rest =>
    obtain rfl := Option.some.inj (other.symm.trans opens)
    exact ⟨_, _, _, rfl, closed, inside, rest⟩

end Shut

/-- Whether brackets are properly nested in tokens before which some brackets were opened, with the
signs that close them, the innermost first. -/
def nests : (awaited : List String) → List Token → Bool
  | awaited, [] => awaited.isEmpty
  | awaited, token :: rest =>
    match token.closing? with
    | some close => nests (close :: awaited) rest
    | none =>
      if token.closes then
        match awaited with
        | [] => false
        | close :: others => isSign (some token) close && nests others rest
      else nests awaited rest

/-- The tokens up to the sign that the innermost opened bracket awaits, and what is behind it. -/
theorem exists_group_of_nests (tokens : List Token) :
    (nests [] tokens = true → Level tokens) ∧
      ∀ close awaited, nests (close :: awaited) tokens = true →
        ∃ inside closer rest, tokens = inside ++ closer :: rest ∧ isSign (some closer) close = true ∧
          Level inside ∧ nests awaited rest = true := by
  induction length : tokens.length using Nat.strongRecOn generalizing tokens with
  | ind _ ih =>
    subst length
    cases tokens with
    | nil => exact ⟨fun _ => .nil, fun close awaited nested => by cases nested⟩
    | cons token rest =>
      have ihRest := ih rest.length (Nat.lt_succ_self _) rest rfl
      cases opens : token.closing? with
      | some close =>
        have group (awaited : List String) (nested : nests awaited (token :: rest) = true) :=
          ihRest.2 close awaited (by simpa [nests, opens] using nested)
        refine ⟨fun nested => ?_, fun outer awaited nested => ?_⟩
        · obtain ⟨inside, closer, behind, rfl, closed, level, nested⟩ := group [] nested
          exact .group opens closed level ((ih behind.length (by simp; omega) behind rfl).1 nested)
        · obtain ⟨inside, closer, behind, rfl, closed, level, nested⟩ := group _ nested
          obtain ⟨others, last, after, rfl, atLast, levelOthers, nested⟩ :=
            (ih behind.length (by simp; omega) behind rfl).2 outer awaited nested
          exact ⟨token :: (inside ++ closer :: others), last, after, by simp, atLast,
            .group opens closed level levelOthers, nested⟩
      | none =>
        cases closes : token.closes with
        | true =>
          refine ⟨fun nested => by simp [nests, opens, closes] at nested, fun close awaited nested => ?_⟩
          obtain ⟨closed, nested⟩ : isSign (some token) close = true ∧ nests awaited rest = true := by
            simpa [nests, opens, closes] using nested
          exact ⟨[], token, rest, rfl, closed, .nil, nested⟩
        | false =>
          refine ⟨fun nested => .plain opens closes (ihRest.1 (by simpa [nests, opens, closes] using nested)),
            fun close awaited nested => ?_⟩
          obtain ⟨inside, closer, behind, rfl, closed, level, nested⟩ :=
            ihRest.2 close awaited (by simpa [nests, opens, closes] using nested)
          exact ⟨token :: inside, closer, behind, rfl, closed, .plain opens closes level, nested⟩

theorem level_of_nests {tokens : List Token} (nested : nests [] tokens = true) : Level tokens :=
  (exists_group_of_nests tokens).1 nested

/-! ### Looking for the end of a bracket -/

/-- The tokens up to the closing sign of the bracket around them, `depth` brackets inside it. -/
def untilClosed : (depth : Nat) → List Token → List Token
  | _, [] => []
  | depth, token :: rest =>
    if token.closes then
      match depth with
      | 0 => []
      | depth + 1 => token :: untilClosed depth rest
    else token :: untilClosed (if token.closing?.isSome then depth + 1 else depth) rest

/-- The tokens behind the closing sign of the bracket around them, `depth` brackets inside it. -/
def behindClosed : (depth : Nat) → List Token → List Token
  | _, [] => []
  | depth, token :: rest =>
    if token.closes then
      match depth with
      | 0 => rest
      | depth + 1 => behindClosed depth rest
    else behindClosed (if token.closing?.isSome then depth + 1 else depth) rest

/-- Whether one of the signs comes before the bracket around the tokens is closed, and in no bracket
inside it. -/
def reaches (signs : List String) : (depth : Nat) → List Token → Bool
  | _, [] => false
  | depth, token :: rest =>
    if token.isSignIn signs && depth == 0 then true
    else if token.closes then
      match depth with
      | 0 => false
      | depth + 1 => reaches signs depth rest
    else reaches signs (if token.closing?.isSome then depth + 1 else depth) rest

namespace Level

variable {inside : List Token} (level : Level inside) (rest : List Token)

include level

theorem untilClosed_append (depth : Nat) :
    untilClosed depth (inside ++ rest) = inside ++ untilClosed depth rest := by
  induction level generalizing depth rest with
  | nil => rfl
  | plain noOpener noCloser _ ih => simp [untilClosed, noOpener, noCloser, ih]
  | group opens closed _ _ ihInside ihRest =>
    have isCloser := Token.isSignIn_of_isSign closed (Token.mem_closers_of_closing? opens)
    simp only [List.cons_append, List.append_assoc, untilClosed, Token.closes_eq_false_of_closing? opens,
      Bool.false_eq_true, if_false, opens, Option.isSome_some, if_true, ihInside]
    simp [Token.closes, isCloser, ihRest]

theorem behindClosed_append (depth : Nat) :
    behindClosed depth (inside ++ rest) = behindClosed depth rest := by
  induction level generalizing depth rest with
  | nil => rfl
  | plain noOpener noCloser _ ih => simp [behindClosed, noOpener, noCloser, ih]
  | group opens closed _ _ ihInside ihRest =>
    have isCloser := Token.isSignIn_of_isSign closed (Token.mem_closers_of_closing? opens)
    simp only [List.cons_append, List.append_assoc, behindClosed, Token.closes_eq_false_of_closing? opens,
      Bool.false_eq_true, if_false, opens, Option.isSome_some, if_true, ihInside]
    simp [Token.closes, isCloser, ihRest]

theorem reaches_append (signs : List String) (depth : Nat) :
    reaches signs (depth + 1) (inside ++ rest) = reaches signs (depth + 1) rest := by
  induction level generalizing depth rest with
  | nil => rfl
  | plain noOpener noCloser _ ih => simp [reaches, noOpener, noCloser, ih]
  | group opens closed _ _ ihInside ihRest =>
    have isCloser := Token.isSignIn_of_isSign closed (Token.mem_closers_of_closing? opens)
    simp only [List.cons_append, List.append_assoc, reaches, Token.closes_eq_false_of_closing? opens,
      Bool.false_eq_true, if_false, opens, Option.isSome_some, if_true, ihInside]
    simp [Token.closes, isCloser, ihRest]

end Level

/-- Where a sign is reached that comes before the bracket around the tokens is closed: behind tokens
with properly nested brackets. -/
theorem Shut.exists_level_of_reaches {front bound : List Token} {stops : List String} (shut : Shut front)
    (reached : reaches stops 0 (front ++ bound) = true)
    (ends : ∀ token rest, bound = token :: rest → token.isSignIn stops = false → token.closes = true) :
    ∃ first second, front = first ++ second ∧ Level first ∧ Shut second ∧
      (second ++ bound).head?.any (Token.isSignIn · stops) = true := by
  induction shut with
  | nil =>
    refine ⟨[], [], rfl, .nil, .nil, ?_⟩
    cases bound with
    | nil => cases reached
    | cons token rest =>
      cases stop : token.isSignIn stops with
      | true => exact stop
      | false => simp [reaches, stop, ends token rest rfl stop] at reached
  | @plain token rest noOpener shut ih =>
    cases stop : token.isSignIn stops with
    | true => exact ⟨[], token :: rest, rfl, .nil, .plain noOpener shut, stop⟩
    | false =>
      cases closes : token.closes with
      | true => simp [reaches, stop, closes] at reached
      | false =>
        obtain ⟨first, second, rfl, level, shut, atStop⟩ :=
          ih (by simpa [reaches, stop, closes, noOpener] using reached)
        exact ⟨token :: first, second, rfl, .plain noOpener closes level, shut, atStop⟩
  | @group opener closer close inside rest opens closed level shut ih =>
    cases stop : opener.isSignIn stops with
    | true => exact ⟨[], _, rfl, .nil, .group opens closed level shut, stop⟩
    | false =>
      have isCloser : closer.closes = true :=
        Token.isSignIn_of_isSign closed (Token.mem_closers_of_closing? opens)
      simp only [List.cons_append, List.append_assoc, reaches, stop, Bool.false_and, Bool.false_eq_true,
        if_false, Token.closes_eq_false_of_closing? opens, opens, Option.isSome_some, if_true, Nat.zero_add,
        level.reaches_append] at reached
      obtain ⟨first, second, rfl, levelFirst, shut, atStop⟩ :=
        ih (by simpa [reaches, isCloser] using reached)
      exact ⟨opener :: (inside ++ closer :: first), second, by simp, .group opens closed level levelFirst,
        shut, atStop⟩

/-! ### Counting brackets of one kind -/

/-- How a token changes the number of open brackets that a sign closes. -/
def Token.change (sign : String) (token : Token) : Int :=
  match token.closing? with
  | some close => if close = sign then 1 else 0
  | none => if isSign (some token) sign then -1 else 0

/-- How tokens change the number of open brackets that a sign closes. -/
def change (sign : String) : List Token → Int
  | [] => 0
  | token :: rest => token.change sign + change sign rest

theorem change_append (sign : String) (first second : List Token) :
    change sign (first ++ second) = change sign first + change sign second := by
  induction first with
  | nil => simp [change]
  | cons token first ih => simp [change, ih, Int.add_assoc]

theorem Token.change_nonneg {opener : Token} {close : String} (opens : opener.closing? = some close)
    (sign : String) : 0 ≤ opener.change sign := by
  simp only [change, opens]
  split <;> decide

theorem Token.change_nonpos {token : Token} (noOpener : token.closing? = none) (sign : String) :
    token.change sign ≤ 0 := by
  simp only [change, noOpener]
  split <;> decide

section Group

variable {opener closer : Token} {close : String} (opens : opener.closing? = some close)
  (closed : isSign (some closer) close = true) (sign : String)

include opens closed

theorem Token.change_add_change : opener.change sign + closer.change sign = 0 := by
  have member := mem_closers_of_closing? opens
  have noOpener := closing?_eq_none_of_closes (isSignIn_of_isSign closed member)
  by_cases same : close = sign
  · subst same
    simp [change, opens, noOpener, closed]
  · simp [change, opens, noOpener, isSign_eq_false_of_isSign same closed, same]

theorem change_group (inside rest : List Token) :
    change sign (opener :: (inside ++ closer :: rest)) = change sign inside + change sign rest := by
  have pair := Token.change_add_change opens closed sign
  simp only [change, change_append]
  omega

end Group

theorem Token.change_plain {token : Token} (sign : String) (member : sign ∈ closers)
    (noOpener : token.closing? = none) (noCloser : token.closes = false) : token.change sign = 0 := by
  have other : isSign (some token) sign = false := by
    simpa using List.any_eq_false.mp noCloser sign member
  simp [change, noOpener, other]

theorem Level.change_eq_zero {tokens : List Token} (level : Level tokens) (sign : String)
    (member : sign ∈ closers) : change sign tokens = 0 := by
  induction level with
  | nil => rfl
  | plain noOpener noCloser _ ih => rw [change, Token.change_plain sign member noOpener noCloser, ih]; rfl
  | group opens closed _ _ ihInside ihRest => rw [change_group opens closed, ihInside, ihRest]; rfl

theorem Shut.change_nonpos {tokens : List Token} (shut : Shut tokens) (sign : String)
    (member : sign ∈ closers) : change sign tokens ≤ 0 := by
  induction shut with
  | nil => exact Int.le_refl 0
  | plain noOpener _ ih =>
    have down := Token.change_nonpos noOpener sign
    simp only [change]
    omega
  | group opens closed level _ ih =>
    rw [change_group opens closed, level.change_eq_zero sign member]
    omega

/-- Whether the number of open brackets that a sign closes, counted from `depth`, is never less than
one and is one in the end. -/
def staysOpen (sign : String) : (depth : Int) → List Token → Prop
  | depth, [] => depth = 1
  | depth, token :: rest => 1 ≤ depth + token.change sign ∧ staysOpen sign (depth + token.change sign) rest

theorem Level.staysOpen_append {inside : List Token} (level : Level inside) {sign : String}
    (member : sign ∈ closers) {depth : Int} (positive : 1 ≤ depth) {rest : List Token}
    (stays : staysOpen sign depth rest) : staysOpen sign depth (inside ++ rest) := by
  induction level generalizing depth rest with
  | nil => exact stays
  | plain noOpener noCloser _ ih =>
    simp only [List.cons_append, staysOpen, Token.change_plain sign member noOpener noCloser, Int.add_zero]
    exact ⟨positive, ih positive stays⟩
  | @group opener closer _ _ _ opens closed _ _ ihInside ihRest =>
    have up := Token.change_nonneg opens sign
    have back : depth + opener.change sign + closer.change sign = depth := by
      have pair := Token.change_add_change opens closed sign
      omega
    simp only [List.cons_append, List.append_assoc, staysOpen]
    refine ⟨by omega, ihInside (by omega) ?_⟩
    simp only [staysOpen, back]
    exact ⟨positive, ihRest positive stays⟩

/-! ### What tokens announce -/

/-- The signs one of which ends the head of a declaration that a token starts. -/
def Token.headEnds? (token : Token) (next : Option Token) : Option (List String) :=
  if isWordIn (some token) ["fn"] then some ["=>", openBrace, ";"]
  else if isWordIn (some token) ["function"]
      || isWordIn (some token) classWords && isKind next .name
      || isWordIn (some token) ["new"] && isWordIn next ["class"]
      || isWordIn (some token) ["use"] && !isSign next "(" then some [openBrace, ";"]
  else none

/-- Whether the bracket around the tokens is closed behind three dots. -/
def endsInDots (tokens : List Token) : Bool := isSign (untilClosed 0 tokens).getLast? "..."

/-- What a token announces comes before the bracket around it is closed: the operand of a reference,
what an attribute belongs to, the operand of the last spread of an array, and the end of the head of
a declaration. -/
structure Token.IsComplete (token : Token) (rest : List Token) : Prop where
  reference : isSign (some token) "&" = true → rest.head?.any Token.closes = false
  marked : isSign (some token) "#[" = true → (behindClosed 0 rest).head?.any Token.closes = false
  array : isSign (some token) "[" = true → endsInDots rest = false
  longArray : isWordIn (some token) ["array", "list"] = true → isSign rest.head? "(" = true →
    endsInDots rest.tail = false
  head : ∀ stops ∈ token.headEnds? rest.head?, reaches stops 0 rest = true

instance (token : Token) (rest : List Token) : Decidable (token.IsComplete rest) :=
  decidable_of_iff
    ((isSign (some token) "&" = true → rest.head?.any Token.closes = false) ∧
      (isSign (some token) "#[" = true → (behindClosed 0 rest).head?.any Token.closes = false) ∧
      (isSign (some token) "[" = true → endsInDots rest = false) ∧
      (isWordIn (some token) ["array", "list"] = true → isSign rest.head? "(" = true →
        endsInDots rest.tail = false) ∧
      ∀ stops ∈ token.headEnds? rest.head?, reaches stops 0 rest = true)
    ⟨fun ⟨reference, marked, array, longArray, head⟩ => ⟨reference, marked, array, longArray, head⟩,
      fun complete => ⟨complete.reference, complete.marked, complete.array, complete.longArray,
        complete.head⟩⟩

/-- Every token is complete before the tokens behind it. -/
def Complete : List Token → Prop
  | [] => True
  | token :: rest => token.IsComplete rest ∧ Complete rest

instance : (tokens : List Token) → Decidable (Complete tokens)
  | [] => inferInstanceAs (Decidable True)
  | token :: rest =>
    have := instDecidableComplete rest
    inferInstanceAs (Decidable (token.IsComplete rest ∧ Complete rest))

theorem Complete.isComplete_of_suffix {tokens rest : List Token} {token : Token} (complete : Complete tokens)
    (suffix : token :: rest <:+ tokens) : token.IsComplete rest := by
  induction tokens with
  | nil => simp at suffix
  | cons first tokens ih =>
    rcases List.suffix_cons_iff.mp suffix with same | suffix
    · obtain ⟨rfl, rfl⟩ := List.cons.inj same
      exact complete.1
    · exact ih complete.2 suffix

end FormHarvest
