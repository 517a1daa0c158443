import FormHarvest.Proofs.TwoRuns
import FormHarvest.Php.Parser

namespace FormHarvest

/-! ### Bounds -/

/-- What a parser may not read: the tokens that stand behind, if there are such. Without a bound
everything is read. -/
abbrev Bound := Option (List Token)

namespace Bound

/-- A bound starts with one of the signs. -/
def HeadIn (signs : List String) (bound : Bound) : Prop :=
  ∀ behind ∈ bound, behind.head?.any (Token.isSignIn · signs) = true

/-- The signs before which every expression ends. -/
def stopSigns : List String := [")", "]", closeBrace, ";"]

/-- A bound lies behind the next token. -/
def Ahead (bound : Bound) (before : List Token) : Prop :=
  ∀ behind ∈ bound, behind.length < before.length

/-- A bound starts with a sign that closes a bracket, which was opened before another bound. -/
inductive Within (close : String) : Bound → Bound → Prop
  | alone : Within close none none
  | group {behind rest : List Token} {closer : Token} (closed : isSign (some closer) close = true)
    (filled : behind ≠ []) (shut : Shut rest) : Within close (some behind) (some (closer :: (rest ++ behind)))

/-- The brackets of the tokens before a bound are properly nested. -/
def LevelBefore (bound : Bound) (before : List Token) : Prop :=
  ∀ behind ∈ bound, ∃ inside, Level inside ∧ before = inside ++ behind

/-- No three dots come directly before a bound. -/
def NoDots (tokens : List Token) (bound : Bound) : Prop :=
  ∀ behind ∈ bound, ∀ token, token :: behind <:+ tokens → isSign (some token) "..." = false

variable {bound inner : Bound} {signs : List String} {token : Token} {rest : List Token} {close : String}

theorem length_lt_of_eq_append {tokens front behind : List Token} {first : Token}
    (parts : tokens = first :: front ++ behind) : behind.length < tokens.length := by
  rw [parts, List.length_append, List.length_cons]
  omega

theorem HeadIn.mono {more : List String} (head : HeadIn signs bound) (sub : signs ⊆ more) : HeadIn more bound := by
  intro behind isBound
  have first := head behind isBound
  cases behind with
  | nil => cases first
  | cons token behind =>
    obtain ⟨text, member, sign⟩ := List.any_eq_true.mp first
    exact Token.isSignIn_of_isSign sign (sub member)

theorem Within.headIn (within : Within close bound inner) : HeadIn [close] inner := by
  cases within with
  | alone => nofun
  | group closed _ _ =>
    rintro _ ⟨⟩
    exact Token.isSignIn_of_isSign closed (List.mem_singleton_self _)

theorem Within.stops (within : Within close bound inner) (member : close ∈ closers) : HeadIn stopSigns inner :=
  within.headIn.mono fun text same => by
    obtain rfl := List.mem_singleton.mp same
    exact List.mem_append_left [";"] member

end Bound

open FormHarvest.Bound

/-- The tokens ahead are those of the first run: some in which every opened bracket is closed, and
then the bound. They are fewer than `limit`. -/
structure Runs.Room (runs : Runs) (bound : Bound) (limit : Nat) (before : List Token) : Prop where
  short : before.length < limit
  alone : bound = none → runs.tail = []
  within : ∀ behind ∈ bound, behind ≠ [] ∧ before <:+ runs.tokens ∧ Complete runs.tokens ∧
    ∃ front, before = front ++ behind ∧ Shut front

namespace Runs.Room

variable {runs : Runs} {bound inner : Bound} {limit : Nat} {before rest : List Token} {token : Token}
  {signs : List String} {close : String}

theorem mono {more : Nat} (room : runs.Room bound limit before) (le : limit ≤ more) :
    runs.Room bound more before := { room with short := Nat.lt_of_lt_of_le room.short le }

theorem exact_ (room : runs.Room bound limit before) : runs.Room bound (before.length + 1) before :=
  { room with short := Nat.lt_succ_self _ }

theorem filled (room : runs.Room bound limit before) : runs.tail = [] ∨ before ≠ [] := by
  cases bound with
  | none => exact .inl (room.alone rfl)
  | some behind =>
    obtain ⟨some_, -, -, front, rfl, -⟩ := room.within behind rfl
    exact .inr (List.append_ne_nil_of_right_ne_nil _ some_)

theorem enough (room : runs.Room bound limit before) (ahead : Ahead bound before) :
    runs.tail = [] ∨ 1 < before.length := by
  cases bound with
  | none => exact .inl (room.alone rfl)
  | some behind =>
    have longer := ahead behind rfl
    have some_ := List.length_pos_iff.mpr (room.within behind rfl).1
    exact .inr (by omega)

/-- A token that starts no bound comes before it. -/
theorem ahead (room : runs.Room bound limit (token :: rest)) (head : HeadIn signs bound)
    (other : token.isSignIn signs = false) : Ahead bound (token :: rest) := by
  intro behind isBound
  obtain ⟨-, -, -, front, parts, -⟩ := room.within behind isBound
  cases front with
  | nil =>
    have first := head behind isBound
    rw [List.nil_append] at parts
    subst parts
    simp [other] at first
  | cons first front => exact length_lt_of_eq_append parts

theorem ahead_of_isSign {text : String} (room : runs.Room bound limit (token :: rest))
    (head : HeadIn signs bound) (sign : isSign (some token) text = true) (absent : text ∉ signs) :
    Ahead bound (token :: rest) :=
  room.ahead head (Token.isSignIn_eq_false sign absent)

theorem ahead_of_kind (room : runs.Room bound limit (token :: rest)) (head : HeadIn signs bound)
    (kind : token.kind ≠ .punctuation ∧ token.kind ≠ .operator) : Ahead bound (token :: rest) :=
  room.ahead head (Token.isSignIn_eq_false_of_kind kind.1 kind.2)

theorem tail (room : runs.Room bound (limit + 1) (token :: rest)) (ahead : Ahead bound (token :: rest)) :
    runs.Room bound limit rest where
  short := Nat.lt_of_succ_lt_succ room.short
  alone := room.alone
  within behind isBound := by
    obtain ⟨filled, suffix, complete, front, parts, shut⟩ := room.within behind isBound
    cases front with
    | nil =>
      have longer := ahead behind isBound
      rw [parts] at longer
      exact absurd longer (by simp)
    | cons first front =>
      rw [List.cons_append] at parts
      obtain ⟨rfl, rfl⟩ := List.cons.inj parts
      exact ⟨filled, (List.suffix_cons _ _).trans suffix, complete, front, rfl, shut.tail⟩

theorem drop (room : runs.Room bound limit (token :: rest)) (ahead : Ahead bound (token :: rest)) :
    runs.Room bound limit rest := (room.exact_.tail ahead).mono (Nat.le_of_lt room.short)

theorem of_append {front others behind : List Token}
    (room : runs.Room (some behind) limit (front ++ (others ++ behind))) (shut : Shut others) :
    runs.Room (some behind) limit (others ++ behind) where
  short := Nat.lt_of_le_of_lt (List.suffix_append _ _).length_le room.short
  alone := nofun
  within := by
    rintro _ ⟨⟩
    obtain ⟨filled, suffix, complete, -⟩ := room.within behind rfl
    exact ⟨filled, (List.suffix_append _ _).trans suffix, complete, others, rfl, shut⟩

/-- Behind an opening bracket the bound is the sign that closes it. -/
theorem enter (room : runs.Room bound (limit + 1) (token :: rest)) (ahead : Ahead bound (token :: rest))
    (opens : token.closing? = some close) :
    ∃ inner, Within close bound inner ∧ runs.Room inner limit rest ∧ LevelBefore inner rest := by
  cases bound with
  | none => exact ⟨none, .alone, room.tail ahead, nofun⟩
  | some behind =>
    obtain ⟨filled, suffix, complete, front, parts, shut⟩ := room.within behind rfl
    cases front with
    | nil =>
      have longer := ahead behind rfl
      rw [parts] at longer
      exact absurd longer (by simp)
    | cons first front =>
      rw [List.cons_append] at parts
      obtain ⟨rfl, rfl⟩ := List.cons.inj parts
      obtain ⟨inside, closer, rest, rfl, closed, level, shut⟩ := shut.exists_group opens
      have parts : inside ++ closer :: rest ++ behind = inside ++ closer :: (rest ++ behind) := by simp
      rw [parts] at room suffix ⊢
      refine ⟨some (closer :: (rest ++ behind)), .group closed filled shut, ⟨?_, nofun, ?_⟩, ?_⟩
      · exact Nat.lt_of_succ_lt_succ room.short
      · rintro _ ⟨⟩
        exact ⟨List.cons_ne_nil _ _, (List.suffix_cons _ _).trans suffix, complete, inside, rfl, level.shut⟩
      · rintro _ ⟨⟩
        exact ⟨inside, level, rfl⟩

/-- What is left inside a bracket is left before the outer bound. -/
theorem leave (room : runs.Room inner limit before) (within : Within close bound inner)
    (member : close ∈ closers) : runs.Room bound limit before := by
  cases within with
  | alone => exact room
  | @group behind rest closer closed filled shut =>
    obtain ⟨-, suffix, complete, front, rfl, shutFront⟩ := room.within _ rfl
    refine ⟨room.short, nofun, ?_⟩
    rintro _ ⟨⟩
    exact ⟨filled, suffix, complete, front ++ closer :: rest, by simp,
      shutFront.append (.of_closer closed member shut)⟩

/-- Inside a bracket every token comes before the outer bound. -/
theorem pass (room : runs.Room inner limit (token :: rest)) (within : Within close bound inner)
    (member : close ∈ closers) : runs.Room bound limit rest := by
  refine (room.leave within member).drop ?_
  cases within with
  | alone => nofun
  | @group behind _ closer closed filled shut =>
    obtain ⟨-, -, -, front, parts, -⟩ := room.within _ rfl
    rintro _ ⟨⟩
    rw [parts, List.length_append, List.length_cons, List.length_append]
    omega

/-- Inside a bracket its closing sign and the start of the outer bound are still ahead. -/
theorem enough_inside (room : runs.Room inner limit before) (within : Within close bound inner) :
    runs.tail = [] ∨ 1 < before.length := by
  cases within with
  | alone => exact .inl (room.alone rfl)
  | @group behind rest closer closed filled shut =>
    obtain ⟨-, -, -, front, parts, -⟩ := room.within _ rfl
    have some_ := List.length_pos_iff.mpr filled
    rw [parts, List.length_append, List.length_cons, List.length_append]
    exact .inr (by omega)

end Runs.Room

theorem Token.not_isSign_of_closing? {token : Token} {close text : String} (opens : token.closing? = some close)
    (other : text ∉ openers) : isSign (some token) text = false := by
  cases sign : isSign (some token) text with
  | false => rfl
  | true =>
    have none_ := Token.closing?_eq_none (Token.isSignIn_eq_false sign other)
    rw [none_] at opens
    cases opens

/-- The bracket of an array literal does not end in three dots. -/
theorem Bound.noDots_of_endsInDots {tokens rest : List Token} {bound inner : Bound} {opener : Token}
    {close : String} (within : Within close bound inner) (member : close ∈ closers)
    (opens : opener.closing? = some close) (suffix : opener :: rest <:+ tokens)
    (ends : endsInDots rest = false)
    (nested : LevelBefore inner rest) : NoDots tokens inner := by
  intro behind isInner token here
  obtain ⟨inside, level, rfl⟩ := nested behind isInner
  have first : untilClosed 0 (inside ++ behind) = inside := by
    cases within with
    | alone => cases isInner
    | @group _ others closer closed _ _ =>
      cases isInner
      have closes : closer.closes = true := Token.isSignIn_of_isSign closed member
      simp [level.untilClosed_append, untilClosed, closes]
  have before : token :: behind <:+ (opener :: inside) ++ behind :=
    List.suffix_of_suffix_length_le here suffix (by simp)
  obtain ⟨front, parts⟩ := before
  have last : opener :: inside = front ++ [token] :=
    List.append_cancel_right (by simpa using parts.symm)
  rcases List.eq_nil_or_concat inside with rfl | ⟨others, last', rfl⟩
  · have same : opener = token := by
      have whole := congrArg List.getLast? last
      simpa using whole
    exact same ▸ Token.not_isSign_of_closing? opens (by decide)
  · rw [List.concat_eq_append, ← List.cons_append] at last
    have same : last' = token := List.singleton_inj.mp (List.append_inj_right' last rfl)
    rw [endsInDots, first] at ends
    simpa [same] using ends

namespace Runs.Room

variable {runs : Runs} {bound : Bound} {limit : Nat} {before rest : List Token} {token : Token}
  {signs : List String}

/-- The head of a declaration has its end as its bound. -/
theorem head (room : runs.Room bound (limit + 1) (token :: rest)) (stops : HeadIn stopSigns bound)
    (ahead : Ahead bound (token :: rest)) (ends : token.headEnds? rest.head? = some signs) :
    ∃ inner, runs.Room inner limit rest ∧ HeadIn signs inner ∧ LevelBefore inner rest ∧
      ∀ limit after, runs.Room inner limit after → runs.Room bound limit after := by
  cases bound with
  | none => exact ⟨none, room.tail ahead, nofun, nofun, fun _ _ room => room⟩
  | some behind =>
    have semicolon : ";" ∈ signs := by
      unfold Token.headEnds? at ends
      split at ends
      · cases ends
        decide
      split at ends <;> cases ends
      decide
    obtain ⟨filled, suffix, complete, -, -, -⟩ := room.within behind rfl
    obtain ⟨short, -, within⟩ := room.tail ahead
    obtain ⟨-, suffixRest, -, front, rfl, shut⟩ := within behind rfl
    have reached := (complete.isComplete_of_suffix suffix).head signs ends
    obtain ⟨first, second, rfl, level, shutSecond, atStop⟩ :=
      shut.exists_level_of_reaches reached fun closer others start noStop => by
        have stop := stops behind rfl
        rw [start] at stop
        obtain ⟨text, member, sign⟩ := List.any_eq_true.mp stop
        rcases List.mem_append.mp (show text ∈ closers ++ [";"] from member) with closer | same
        · exact Token.isSignIn_of_isSign sign closer
        · obtain rfl := List.mem_singleton.mp same
          rw [Token.isSignIn_of_isSign sign semicolon] at noStop
          cases noStop
    refine ⟨some (second ++ behind), ⟨short, nofun, ?_⟩, ?_, ?_, ?_⟩
    · rintro _ ⟨⟩
      exact ⟨List.append_ne_nil_of_right_ne_nil _ filled, suffixRest, complete, first, by simp, level.shut⟩
    · rintro _ ⟨⟩
      exact atStop
    · rintro _ ⟨⟩
      exact ⟨first, level, by simp⟩
    · intro limit after inner
      refine ⟨inner.short, nofun, ?_⟩
      rintro _ ⟨⟩
      obtain ⟨-, suffix, -, front, rfl, shut⟩ := inner.within _ rfl
      exact ⟨filled, suffix, complete, front ++ second, by simp, shut.append shutSecond⟩

/-- A token that does not come before the bound starts it. -/
theorem eq_of_not_ahead (room : runs.Room bound limit (token :: rest)) (here : ¬Ahead bound (token :: rest)) :
    bound = some (token :: rest) := by
  cases bound with
  | none => exact absurd nofun here
  | some behind =>
    obtain ⟨-, -, -, front, parts, -⟩ := room.within behind rfl
    cases front with
    | nil => rw [parts, List.nil_append]
    | cons first front =>
      refine absurd ?_ here
      rintro _ ⟨⟩
      exact length_lt_of_eq_append parts

theorem skip (room : runs.Room bound (limit + 1) before) (ahead : Ahead bound before) (positive : 0 < limit) :
    runs.Room bound limit before.tail := by
  cases before with
  | nil => exact { room with short := positive }
  | cons token rest => exact room.tail ahead

end Runs.Room

/-- A statement ends before its bound, or with the semicolon at which the bound starts. -/
inductive Runs.Past (runs : Runs) (limit : Nat) : Bound → List Token → Prop
  | before {bound : Bound} {after : List Token} : runs.Room bound limit after → Past runs limit bound after
  | behind {semicolon : Token} {after : List Token} : isSign (some semicolon) ";" = true →
    after.length < limit → Past runs limit (some (semicolon :: after)) after

theorem Runs.Past.mono {runs : Runs} {limit more : Nat} {bound : Bound} {after : List Token}
    (past : runs.Past limit bound after) (le : limit ≤ more) : runs.Past more bound after := by
  cases past with
  | before room => exact .before (room.mono le)
  | behind semicolon short => exact .behind semicolon (Nat.lt_of_lt_of_le short le)

theorem Runs.Past.short {runs : Runs} {limit : Nat} {bound : Bound} {after : List Token}
    (past : runs.Past limit bound after) : after.length < limit := by
  cases past with
  | before room => exact room.short
  | behind _ short => exact short

theorem Runs.Past.shorten {runs : Runs} {limit less : Nat} {bound : Bound} {after : List Token}
    (past : runs.Past limit bound after) (short : after.length < less) : runs.Past less bound after := by
  cases past with
  | before room => exact .before { room with short }
  | behind semicolon _ => exact .behind semicolon short

/-- Before the closing sign of a bracket a statement ends before it. -/
theorem Runs.Past.room {runs : Runs} {limit : Nat} {bound : Bound} {after : List Token} {signs : List String}
    (past : runs.Past limit bound after) (head : HeadIn signs bound) (absent : ";" ∉ signs) :
    runs.Room bound limit after := by
  cases past with
  | before room => exact room
  | behind semicolon _ =>
    have sign := head _ rfl
    rw [List.head?_cons, Option.any_some, Token.isSignIn_eq_false semicolon absent] at sign
    cases sign

theorem Runs.Room.past {runs : Runs} {bound : Bound} {limit : Nat} {token : Token} {rest : List Token}
    (room : runs.Room bound (limit + 1) (token :: rest)) (semicolon : isSign (some token) ";" = true) :
    runs.Past limit bound rest := by
  by_cases ahead : Ahead bound (token :: rest)
  · exact .before (room.tail ahead)
  · obtain rfl := room.eq_of_not_ahead ahead
    exact .behind semicolon (Nat.lt_of_succ_lt_succ room.short)

end FormHarvest
