import FormHarvest.Proofs.BracketBounds
import FormHarvest.Proofs.ParserParts

namespace FormHarvest

open FormHarvest.Bound

namespace Token

variable {token : Token}

theorem change_of_opens {close : String} (opens : token.closing? = some close) : token.change close = 1 := by
  simp [change, opens]

theorem change_of_closes {close : String} (member : close ∈ closers) (closed : isSign (some token) close = true) :
    token.change close = -1 := by
  have noOpener := closing?_eq_none_of_closes (isSignIn_of_isSign closed member)
  simp [change, noOpener, closed]

theorem change_of_other {close : String} (noOpener : token.closing? ≠ some close)
    (noCloser : isSign (some token) close = false) : token.change close = 0 := by
  unfold change
  split
  · rename_i other opens
    have apart : other ≠ close := fun same => noOpener (same ▸ opens)
    simp [apart]
  · simp [noCloser]

theorem closing?_eq_paren : token.closing? = some ")" ↔ isSign (some token) "(" = true := by
  unfold closing?
  split
  · simp_all
  split
  · simp_all
  split <;> simp_all [closeBrace]

theorem closing?_eq_bracket :
    token.closing? = some "]" ↔ (isSign (some token) "[" || isSign (some token) "#[") = true := by
  unfold closing?
  split
  · rename_i paren
    simp [isSign_eq_false_of_isSign (show "(" ≠ "[" by decide) paren,
      isSign_eq_false_of_isSign (show "(" ≠ "#[" by decide) paren]
  split
  · simp_all
  split <;> simp_all [closeBrace]

theorem closing?_eq_brace : token.closing? = some closeBrace ↔ isSign (some token) openBrace = true := by
  unfold closing?
  split
  · rename_i paren
    simp [isSign_eq_false_of_isSign (show "(" ≠ openBrace by decide) paren, closeBrace]
  split
  · rename_i bracket
    have other : isSign (some token) openBrace = false := by
      rcases Bool.or_eq_true_iff.mp bracket with bracket | bracket
      · exact isSign_eq_false_of_isSign (by decide) bracket
      · exact isSign_eq_false_of_isSign (by decide) bracket
    simp [other, closeBrace]
  split <;> simp_all

end Token

namespace Runs

variable {runs : Runs} {bound : Bound} {limit : Nat} {before rest : List Token} {token : Token}

/-- Before a bound the brackets that a sign closes are counted from `depth` to no more than `most`. -/
def Counts (bound : Bound) (close : String) (depth most : Int) (before : List Token) : Prop :=
  ∀ behind ∈ bound, ∃ front, before = front ++ behind ∧ depth + change close front ≤ most

theorem Counts.tail {close : String} {depth most : Int} (counts : Counts bound close depth most (token :: rest))
    (ahead : Ahead bound (token :: rest)) : Counts bound close (depth + token.change close) most rest := by
  intro behind isBound
  obtain ⟨front, parts, small⟩ := counts behind isBound
  cases front with
  | nil =>
    have longer := ahead behind isBound
    rw [parts] at longer
    exact absurd longer (by simp)
  | cons first front =>
    rw [List.cons_append] at parts
    obtain ⟨rfl, rfl⟩ := List.cons.inj parts
    simp only [change] at small
    exact ⟨front, rfl, by omega⟩

/-- At the bound itself the count is over. -/
theorem Counts.ahead {close : String} {depth most : Int} (counts : Counts bound close depth most (token :: rest))
    (more : most < depth) : Ahead bound (token :: rest) := by
  intro behind isBound
  obtain ⟨front, parts, small⟩ := counts behind isBound
  cases front with
  | nil =>
    simp only [change] at small
    omega
  | cons first front => exact length_lt_of_eq_append parts

theorem Counts.le_of_not_ahead {close : String} {depth most : Int}
    (counts : Counts bound close depth most (token :: rest)) (here : ¬Ahead bound (token :: rest)) :
    depth ≤ most := by
  by_cases more : most < depth
  · exact absurd (counts.ahead more) here
  · omega

/-! ### Types -/

/-- A pass over a type stands before its bound, inside `depth` parentheses. -/
structure InType (runs : Runs) (bound : Bound) (limit depth : Nat) (before : List Token) : Prop where
  room : runs.Room bound limit before
  counts : Counts bound ")" depth 0 before

theorem InType.start (room : runs.Room bound limit before) : runs.InType bound limit 0 before where
  room := room
  counts behind isBound := by
    obtain ⟨-, -, -, front, parts, shut⟩ := room.within behind isBound
    exact ⟨front, parts, by simpa using shut.change_nonpos ")" (by decide)⟩

/-- Only outside every parenthesis the bound may come next. -/
theorem InType.ahead {depth : Nat} {signs : List String} (pass : runs.InType bound limit depth (token :: rest))
    (head : HeadIn signs bound) (noStop : depth = 0 → token.isSignIn signs = false) :
    Ahead bound (token :: rest) := by
  by_cases outside : depth = 0
  · exact pass.room.ahead head (noStop outside)
  · exact pass.counts.ahead (by omega)

theorem InType.next {depth next : Nat} (pass : runs.InType bound limit depth (token :: rest))
    (ahead : Ahead bound (token :: rest)) (counted : (next : Int) = depth + token.change ")") :
    runs.InType bound limit next rest where
  room := pass.room.drop ahead
  counts := counted ▸ pass.counts.tail ahead

theorem agrees_typeStep {signs stops : List String} (sub : signs ⊆ stops) (head : HeadIn signs bound) (depth : Nat)
    (before : List Token) (pass : runs.InType bound limit depth before) :
    runs.Agrees (Parse.typeStep stops depth) (Parse.typeStep stops depth) before fun result after =>
      if result.2 then runs.InType bound limit result.1 after ∧ after.length < before.length
      else runs.Room bound limit after := by
  have room := pass.room
  refine .peek (room.filled.imp_right List.length_pos_iff.mpr) ?_
  cases before with
  | nil => exact .pure room
  | cons token rest =>
    refine .ite (fun none_ => nomatch none_) fun _ => .ite (fun _ => .pure room) fun noStop => ?_
    have ahead := pass.ahead (head.mono sub) fun outside => by simpa [outside, Token.isSignIn] using noStop
    refine .ite (fun paren => .advance room.filled (.pure ⟨pass.next ahead ?_, Nat.lt_succ_self _⟩))
      fun noParen => .ite
        (fun paren => .ite (fun _ => .pure room) fun inside =>
          .advance room.filled (.pure ⟨pass.next ahead ?_, Nat.lt_succ_self _⟩))
        fun other => .advance room.filled (.pure ⟨pass.next ahead ?_, Nat.lt_succ_self _⟩)
    · rw [Token.change_of_opens (Token.closing?_eq_paren.mpr paren)]
      rfl
    · rw [Token.change_of_closes (by decide) paren]
      omega
    · rw [Token.change_of_other (fun same => noParen (Token.closing?_eq_paren.mp same)) (by simpa using other),
        Int.add_zero]

/-- Behind a type both runs stand at one of its stops, at the latest at the bound. -/
theorem agrees_skipType {signs stops : List String} (sub : signs ⊆ stops)
    (room : runs.Room bound limit before) (head : HeadIn signs bound) :
    runs.Agrees (Parse.skipType runs.rounds stops) (Parse.skipType runs.otherRounds stops) before
      fun _ after => runs.Room bound limit after := by
  rw [Parse.skipType_eq, Parse.skipType_eq]
  exact .map (.repeatStep (agrees_typeStep sub head) (.start room))

/-! ### Attributes -/

/-- A pass over an attribute stands inside `depth` brackets before the sign that closes it, or it
stands behind this sign. -/
inductive InAttribute (closer : Token) (behind : List Token) : Nat → List Token → Prop
  | before {depth : Nat} {front : List Token} (positive : 0 < depth) (stays : staysOpen "]" depth front) :
    InAttribute closer behind depth (front ++ closer :: behind)
  | behind : InAttribute closer behind 0 behind

section Attribute

variable {closer : Token} {behind : List Token}

theorem InAttribute.ne_nil {depth : Nat} (pass : InAttribute closer behind depth before) (filled : behind ≠ []) :
    before ≠ [] := by
  cases pass with
  | before _ _ => exact List.append_ne_nil_of_right_ne_nil _ (List.cons_ne_nil _ _)
  | behind => exact filled

theorem InAttribute.next {depth next : Nat} (closed : isSign (some closer) "]" = true)
    (pass : InAttribute closer behind depth (token :: rest)) (inside : 0 < depth)
    (counted : (next : Int) = depth + token.change "]") : InAttribute closer behind next rest := by
  generalize whole : token :: rest = before at pass
  cases pass with
  | behind => exact absurd inside (Nat.lt_irrefl 0)
  | @before _ front _ stays =>
    cases front with
    | nil =>
      obtain ⟨rfl, rfl⟩ := List.cons.inj whole
      obtain rfl : depth = 1 := Int.ofNat_inj.mp stays
      rw [Token.change_of_closes (by decide) closed] at counted
      obtain rfl : next = 0 := by omega
      exact .behind
    | cons first front =>
      obtain ⟨rfl, rfl⟩ := List.cons.inj whole
      obtain ⟨still, stays⟩ := stays
      exact .before (by omega) (counted ▸ stays)

/-- Two passes over an attribute agree about what every token keeps. -/
theorem agrees_skipAttribute_of (during : Nat → List Token → Prop) {done : List Token → Prop}
    (filled : ∀ depth before, during depth before → runs.tail = [] ∨ before ≠ [])
    (next : ∀ (depth more : Nat) (token : Token) (rest : List Token), during depth (token :: rest) → 0 < depth →
      (more : Int) = depth + token.change "]" → during more rest)
    (ends : ∀ depth before, during depth before → depth = 0 ∨ before = [] → done before)
    (start : during 1 rest) :
    runs.Agrees (Parse.skipAttribute runs.rounds) (Parse.skipAttribute runs.otherRounds) (token :: rest)
      fun _ after => done after := by
  have round (depth : Nat) (before : List Token) (holds : during depth before) :
      runs.Agrees (Parse.attributeStep depth) (Parse.attributeStep depth) before fun result after =>
        if result.2 then during result.1 after ∧ after.length < before.length else done after := by
    refine .ite (fun zero => .pure (ends depth before holds (.inl zero))) fun positive => ?_
    have some_ := filled depth before holds
    refine .peek (some_.imp_right List.length_pos_iff.mpr) ?_
    cases before with
    | nil => exact .pure (ends depth [] holds (.inr rfl))
    | cons token rest =>
      have move {more : Nat} (counted : (more : Int) = depth + token.change "]") :
          during more rest ∧ rest.length < (token :: rest).length :=
        ⟨next depth more token rest holds (Nat.pos_of_ne_zero positive) counted, Nat.lt_succ_self _⟩
      refine .ite (fun none_ => absurd none_ Bool.false_ne_true) fun _ => .advance some_ (.ite
        (fun opener => .pure (move ?_)) fun noOpener => .ite (fun closing => .pure (move ?_)) fun noCloser =>
          .pure (move ?_))
      · rw [Token.change_of_opens (Token.closing?_eq_bracket.mpr opener)]
        rfl
      · rw [Token.change_of_closes (by decide) closing]
        omega
      · rw [Token.change_of_other (fun same => noOpener (Token.closing?_eq_bracket.mp same)) (by simpa using noCloser),
          Int.add_zero]
  rw [Parse.skipAttribute_eq, Parse.skipAttribute_eq]
  exact .advance (.inr (List.cons_ne_nil _ _)) (.map (.repeatStep round start))

/-- Behind an attribute comes what it marks, and that starts with no closing sign. -/
theorem Room.marked {inside others : List Token}
    (room : runs.Room (some behind) limit (token :: (inside ++ closer :: (others ++ behind))))
    (opens : isSign (some token) "#[" = true) (closed : isSign (some closer) "]" = true) (level : Level inside) :
    (others ++ behind).head?.any Token.closes = false := by
  obtain ⟨-, suffix, complete, -⟩ := room.within behind rfl
  have closes : closer.closes = true := Token.isSignIn_of_isSign closed (by decide)
  have marked := (complete.isComplete_of_suffix suffix).marked opens
  simpa [level.behindClosed_append, behindClosed, closes] using marked

/-- Behind an attribute both runs stand at the token behind its closing bracket. -/
theorem agrees_skipAttribute (room : runs.Room bound (limit + 1) (token :: rest))
    (stops : HeadIn stopSigns bound) (opens : isSign (some token) "#[" = true) :
    runs.Agrees (Parse.skipAttribute runs.rounds) (Parse.skipAttribute runs.otherRounds) (token :: rest)
      fun _ after => runs.Room bound limit after ∧ (HeadIn closers bound → Ahead bound after) := by
  have ahead : Ahead bound (token :: rest) := room.ahead_of_isSign stops opens (by decide)
  obtain ⟨inner, within, roomInner, level⟩ :=
    room.enter ahead (Token.closing?_eq_bracket.mpr (by simp [opens]))
  cases within with
  | alone =>
    have nowhere (tokens : List Token) : Ahead none tokens := by simp [Ahead]
    refine agrees_skipAttribute_of (fun _ before => runs.Room none limit before) ?_ ?_ ?_ roomInner
    · exact fun _ _ holds => holds.filled
    · exact fun _ _ _ _ holds _ _ => holds.drop (nowhere _)
    · exact fun _ before holds _ => ⟨holds, fun _ => nowhere before⟩
  | @group behind others closer closed filled shut =>
    obtain ⟨inside, levelInside, rfl⟩ := level _ rfl
    have outer : runs.Room (some behind) limit (others ++ behind) := by
      have whole := room.tail ahead
      rw [show inside ++ closer :: (others ++ behind) = (inside ++ [closer]) ++ (others ++ behind) by simp] at whole
      exact whole.of_append shut
    have whenClosers (closerHead : HeadIn closers (some behind)) : Ahead (some behind) (others ++ behind) := by
      have marked := room.marked opens closed levelInside
      rintro _ ⟨⟩
      cases others with
      | nil =>
        rw [List.nil_append] at marked
        exact absurd (closerHead behind rfl) (Bool.eq_false_iff.mp marked)
      | cons => exact length_lt_of_eq_append rfl
    have some_ : others ++ behind ≠ [] := List.append_ne_nil_of_right_ne_nil _ filled
    refine agrees_skipAttribute_of (InAttribute closer (others ++ behind)) ?_ ?_ ?_ ?_
    · exact fun _ _ pass => .inr (pass.ne_nil some_)
    · exact fun _ _ _ _ pass positive counted => pass.next closed positive counted
    · intro depth before pass isOver
      cases pass with
      | before positive _ =>
        rcases isOver with zero | none_
        · exact absurd zero (Nat.ne_of_gt positive)
        · exact absurd none_ (List.append_ne_nil_of_right_ne_nil _ (List.cons_ne_nil _ _))
      | behind => exact ⟨outer, whenClosers⟩
    · have stays : staysOpen "]" 1 ([] : List Token) := rfl
      exact .before Nat.one_pos (by simpa using levelInside.staysOpen_append (by decide) (Int.le_refl 1) stays)

end Attribute

/-! ### Imports -/

/-- A semicolon behind a statement belongs to it. -/
theorem agrees_takeSemicolon {α : Type} {a : α} {post : α → List Token → Prop}
    (room : runs.Room bound limit before) (holds : ∀ after, runs.Past limit bound after → post a after) :
    runs.Agrees (Parse.takeSign ";" >>= fun _ => pure a) (Parse.takeSign ";" >>= fun _ => pure a) before
      post := by
  refine .takeSign room.filled (fun semicolon => .pure (holds _ ?_)) fun _ => .pure (holds _ (.before room))
  cases before with
  | nil => cases semicolon
  | cons token rest => exact (room.exact_.past semicolon).mono (Nat.le_of_lt room.short)

/-- A pass over imports stands in the head of the declaration or in the block behind it, inside `depth` braces. -/
inductive InImports (runs : Runs) (bound head : Bound) (limit : Nat) (depth : Int) (before : List Token) : Prop
  | inHead (room : runs.Room head limit before) (counts : Counts head closeBrace depth 0 before)
  | inBlock {block : Bound} (within : Within closeBrace bound block) (room : runs.Room block limit before)
    (counts : Counts block closeBrace depth 1 before)

section Imports

variable {head : Bound} {depth : Int}

/-- What is left of the declaration is left before its bound. -/
theorem InImports.room (pass : runs.InImports bound head limit depth before)
    (outer : ∀ limit after, runs.Room head limit after → runs.Room bound limit after) :
    runs.Room bound limit before := by
  cases pass with
  | inHead room _ => exact outer limit before room
  | inBlock within room _ => exact room.leave within (by decide)

theorem InImports.next_of_opens (pass : runs.InImports bound head limit depth (token :: rest)) (nonneg : 0 ≤ depth)
    (stops : HeadIn stopSigns bound)
    (outer : ∀ limit after, runs.Room head limit after → runs.Room bound limit after)
    (opens : isSign (some token) openBrace = true) : runs.InImports bound head limit (depth + 1) rest := by
  have roomBound := pass.room outer
  have opensBrace : token.closing? = some closeBrace := Token.closing?_eq_brace.mpr opens
  rw [← Token.change_of_opens opensBrace]
  cases pass with
  | inHead room counts =>
    by_cases ahead : Ahead head (token :: rest)
    · exact .inHead (room.drop ahead) (counts.tail ahead)
    · -- the block of the declaration starts here
      obtain rfl : depth = 0 := Int.le_antisymm (counts.le_of_not_ahead ahead) nonneg
      have inBound := roomBound.exact_.ahead_of_isSign stops opens (by decide)
      obtain ⟨block, within, roomBlock, level⟩ := roomBound.exact_.enter inBound opensBrace
      refine .inBlock within (roomBlock.mono (Nat.le_of_lt roomBound.short)) fun behind isBlock => ?_
      obtain ⟨inside, level, parts⟩ := level behind isBlock
      exact ⟨inside, parts, by simp [level.change_eq_zero closeBrace (by decide), Token.change_of_opens opensBrace]⟩
  | inBlock within room counts =>
    have ahead := room.ahead_of_isSign within.headIn opens (by decide)
    exact .inBlock within (room.drop ahead) (counts.tail ahead)

theorem InImports.room_of_closes (pass : runs.InImports bound head limit depth (token :: rest))
    (atEnd : HeadIn [openBrace, ";"] head)
    (outer : ∀ limit after, runs.Room head limit after → runs.Room bound limit after)
    (closes : isSign (some token) closeBrace = true) : runs.Room bound limit rest := by
  cases pass with
  | inHead room _ => exact outer limit rest (room.drop (room.ahead_of_isSign atEnd closes (by decide)))
  | inBlock within room _ => exact room.pass within (by decide)

theorem InImports.next_of_closes (pass : runs.InImports bound head limit depth (token :: rest))
    (atEnd : HeadIn [openBrace, ";"] head) (closes : isSign (some token) closeBrace = true) (more : 1 < depth) :
    runs.InImports bound head limit (depth - 1) rest := by
  rw [Int.sub_eq_add_neg, ← Token.change_of_closes (by decide) closes]
  cases pass with
  | inHead room counts =>
    have ahead := room.ahead_of_isSign atEnd closes (by decide)
    exact .inHead (room.drop ahead) (counts.tail ahead)
  | inBlock within room counts =>
    have ahead := counts.ahead more
    exact .inBlock within (room.drop ahead) (counts.tail ahead)

theorem InImports.next_of_other (pass : runs.InImports bound head limit depth (token :: rest)) (nonneg : 0 ≤ depth)
    (atEnd : HeadIn [openBrace, ";"] head) (noOpener : isSign (some token) openBrace = false)
    (noCloser : isSign (some token) closeBrace = false)
    (noEnd : ¬(isSign (some token) ";" && depth == 0) = true) : runs.InImports bound head limit depth rest := by
  have same : depth + token.change closeBrace = depth := by
    rw [Token.change_of_other (fun same => by simp [Token.closing?_eq_brace.mp same] at noOpener) noCloser,
      Int.add_zero]
  rw [← same]
  cases pass with
  | inHead room counts =>
    have ahead : Ahead head (token :: rest) := by
      by_cases zero : depth = 0
      · exact room.ahead atEnd (by simpa [Token.isSignIn, noOpener, zero] using noEnd)
      · exact counts.ahead (by omega)
    exact .inHead (room.drop ahead) (counts.tail ahead)
  | inBlock within room counts =>
    have ahead := room.ahead within.headIn (by simpa [Token.isSignIn] using noCloser)
    exact .inBlock within (room.drop ahead) (counts.tail ahead)

theorem agrees_importsStep (stops : HeadIn stopSigns bound) (atEnd : HeadIn [openBrace, ";"] head)
    (outer : ∀ limit after, runs.Room head limit after → runs.Room bound limit after) (depth : Int)
    (before : List Token) (holds : 0 ≤ depth ∧ runs.InImports bound head limit depth before) :
    runs.Agrees (Parse.importsStep depth) (Parse.importsStep depth) before fun result after =>
      if result.2 then
        (0 ≤ result.1 ∧ runs.InImports bound head limit result.1 after) ∧ after.length < before.length
      else runs.Past limit bound after := by
  obtain ⟨nonneg, pass⟩ := holds
  have room := pass.room outer
  refine .peek (room.filled.imp_right List.length_pos_iff.mpr) ?_
  cases before with
  | nil => exact .pure (.before room)
  | cons token rest =>
    have shorter : rest.length < (token :: rest).length := Nat.lt_succ_self _
    refine .ite (fun none_ => nomatch none_) fun _ => .advance room.filled ?_
    refine .ite (fun opens => .pure ⟨⟨by omega, pass.next_of_opens nonneg stops outer opens⟩, shorter⟩)
      fun noOpener => .ite (fun closes => ?_) fun noCloser => .ite (fun ends => .pure ?_) fun noEnd => .pure ?_
    · refine .ite (fun _ => ?_) fun more => .pure ?_
      · exact agrees_takeSemicolon (pass.room_of_closes atEnd outer closes) fun _ past => past
      · exact ⟨⟨by omega, pass.next_of_closes atEnd closes (by omega)⟩, shorter⟩
    · obtain ⟨semicolon, -⟩ := Bool.and_eq_true_iff.mp ends
      exact (room.exact_.past semicolon).mono (Nat.le_of_lt room.short)
    · exact ⟨⟨nonneg, pass.next_of_other nonneg atEnd (by simpa using noOpener) (by simpa using noCloser) noEnd⟩,
        shorter⟩

/-- Behind a declaration of imports both runs stand behind its semicolon or its closing brace, or
somewhere inside it. -/
theorem agrees_skipImports (room : runs.Room bound (limit + 1) (token :: rest))
    (stops : HeadIn stopSigns bound) (ahead : Ahead bound (token :: rest))
    (ends : token.headEnds? rest.head? = some [openBrace, ";"]) :
    runs.Agrees (Parse.skipImports runs.rounds) (Parse.skipImports runs.otherRounds) (token :: rest)
      fun _ after => runs.Past limit bound after := by
  obtain ⟨head, roomHead, atEnd, level, outer⟩ := room.head stops ahead ends
  have start : runs.InImports bound head limit 0 rest := by
    refine .inHead roomHead fun behind isHead => ?_
    obtain ⟨inside, level, parts⟩ := level behind isHead
    exact ⟨inside, parts, by simp [level.change_eq_zero closeBrace (by decide)]⟩
  rw [Parse.skipImports_eq, Parse.skipImports_eq]
  exact .advance room.filled (.map (.repeatStep (agrees_importsStep stops atEnd outer) ⟨Int.le_refl 0, start⟩))

end Imports

end Runs

end FormHarvest
