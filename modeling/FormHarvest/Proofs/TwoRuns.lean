import FormHarvest.Proofs.Brackets

namespace FormHarvest

/-- Two runs over the same tokens. Behind these the second run has more of them, it stands elsewhere
in its source, has skipped other tokens before, and its loops have other rounds. -/
structure Runs where
  tokens : List Token
  tail : List Token
  rounds : Nat
  otherRounds : Nat
  shift : Nat
  lost : Nat

/-- A cursor comes to stand later in the same tokens. -/
structure Cursor.Reaches (cursor after : Cursor) : Prop where
  suffix : after.rest <:+ cursor.rest
  place : after.position + after.rest.length = cursor.position + cursor.rest.length

namespace Runs

/-- Where the second run stands. -/
def other (runs : Runs) (cursor : Cursor) : Cursor where
  rest := cursor.rest ++ runs.tail
  pendingDoc := cursor.pendingDoc
  position := cursor.position + runs.shift
  skipped := cursor.skipped + runs.lost

/-- There are rounds enough for the tokens that are left. If the second run has more tokens, there
are no doc comments. -/
structure Fits (runs : Runs) (cursor : Cursor) : Prop where
  rounds : cursor.rest.length < runs.rounds
  otherRounds : cursor.rest.length < runs.otherRounds
  bare : runs.tail = [] ∨ cursor.pendingDoc = none ∧ ∀ token ∈ cursor.rest, token.isRead = true

end Runs

namespace Cursor

namespace Reaches

variable {cursor middle after : Cursor}

theorem refl (cursor : Cursor) : cursor.Reaches cursor := ⟨List.suffix_refl _, rfl⟩

theorem trans (first : cursor.Reaches middle) (second : middle.Reaches after) : cursor.Reaches after :=
  ⟨second.suffix.trans first.suffix, second.place.trans first.place⟩

theorem fits {runs : Runs} (reaches : cursor.Reaches after) (fits : runs.Fits cursor)
    (noDoc : cursor.pendingDoc = none → (∀ token ∈ cursor.rest, token.isRead = true) →
      after.pendingDoc = none) : runs.Fits after where
  rounds := Nat.lt_of_le_of_lt reaches.suffix.length_le fits.rounds
  otherRounds := Nat.lt_of_le_of_lt reaches.suffix.length_le fits.otherRounds
  bare := fits.bare.imp_right fun ⟨none_, read⟩ =>
    ⟨noDoc none_ read, fun token member => read token (reaches.suffix.subset member)⟩

theorem ahead_length_le (reaches : cursor.Reaches after) : after.ahead.length ≤ cursor.ahead.length :=
  (reaches.suffix.sublist.filter Token.isRead).length_le

theorem ahead_eq (reaches : cursor.Reaches after) (still : after.position = cursor.position) :
    after.ahead = cursor.ahead := by
  have place := reaches.place
  rw [ahead, ahead, reaches.suffix.eq_of_length (by omega)]

/-- Whoever leaves a token that is read has taken it. -/
theorem ahead_length_le_of_moved {token : Token} {rest : List Token} (reaches : cursor.Reaches after)
    (settled : cursor.settle = cursor) (isAhead : cursor.ahead = token :: rest)
    (moved : after.position ≠ cursor.position) : after.ahead.length ≤ rest.length := by
  cases here : cursor.settle.rest with
  | nil =>
    rw [← ahead_settle, ahead, here] at isAhead
    cases isAhead
  | cons first others =>
    obtain ⟨rfl, rfl⟩ := List.cons.inj (isAhead.symm.trans (ahead_eq_of_settle here))
    rw [settled] at here
    have place := reaches.place
    rcases List.suffix_cons_iff.mp (here ▸ reaches.suffix) with same | suffix
    · rw [same, here] at place
      omega
    · exact (suffix.sublist.filter Token.isRead).length_le

end Reaches

theorem settleFrom_append (doc : Option String) (position shift : Nat) (tokens : List Token)
    {tail : List Token} (filled : tail = [] ∨ tokens.filter Token.isRead ≠ []) :
    settleFrom doc (position + shift) (tokens ++ tail) =
      ((settleFrom doc position tokens).1, (settleFrom doc position tokens).2.1 + shift,
        (settleFrom doc position tokens).2.2 ++ tail) := by
  induction tokens generalizing doc position with
  | nil =>
    obtain rfl : tail = [] := by simpa using filled
    rfl
  | cons token rest ih =>
    cases comment : token.kind == .docComment with
    | false => simp [settleFrom, comment]
    | true =>
      have passed : token.isRead = false := by simpa [Token.isRead] using comment
      have further := ih (some token.text) (position + 1) (by simpa [passed] using filled)
      simpa [settleFrom, comment, Nat.add_right_comm] using further

theorem reaches_settle (cursor : Cursor) : cursor.Reaches cursor.settle := by
  have general (doc : Option String) (position : Nat) (tokens : List Token) :
      (settleFrom doc position tokens).2.2 <:+ tokens ∧
        (settleFrom doc position tokens).2.1 + (settleFrom doc position tokens).2.2.length =
          position + tokens.length := by
    induction tokens generalizing doc position with
    | nil => exact ⟨List.suffix_refl _, rfl⟩
    | cons token rest ih =>
      unfold settleFrom
      split
      · obtain ⟨suffix, place⟩ := ih (some token.text) (position + 1)
        exact ⟨suffix.trans (List.suffix_cons _ _), by rw [place, List.length_cons]; omega⟩
      · exact ⟨List.suffix_refl _, rfl⟩
  obtain ⟨suffix, place⟩ := general cursor.pendingDoc cursor.position cursor.rest
  exact ⟨suffix, place⟩

theorem settle_of_isRead {cursor : Cursor} (read : ∀ token ∈ cursor.rest, token.isRead = true) :
    cursor.settle = cursor := by
  obtain ⟨rest, doc, position, skipped⟩ := cursor
  cases rest with
  | nil => rfl
  | cons token rest =>
    have noDoc : (token.kind == .docComment) = false := by
      simpa [Token.isRead] using read token (List.mem_cons_self ..)
    simp [settle, settleFrom, noDoc]

theorem settle_settle (cursor : Cursor) : cursor.settle.settle = cursor.settle := by
  have general (doc : Option String) (position : Nat) (tokens : List Token) :
      settleFrom (settleFrom doc position tokens).1 (settleFrom doc position tokens).2.1
        (settleFrom doc position tokens).2.2 = settleFrom doc position tokens := by
    induction tokens generalizing doc position with
    | nil => rfl
    | cons token rest ih =>
      cases comment : token.kind == .docComment with
      | true => simpa [settleFrom, comment] using ih (some token.text) (position + 1)
      | false => simp [settleFrom, comment]
  have same := general cursor.pendingDoc cursor.position cursor.rest
  simp only [settle, same]

end Cursor

namespace Runs

variable {runs : Runs} {cursor : Cursor}

theorem other_settle (filled : runs.tail = [] ∨ cursor.ahead ≠ []) :
    (runs.other cursor).settle = runs.other cursor.settle := by
  simp only [Cursor.settle, other]
  rw [Cursor.settleFrom_append cursor.pendingDoc cursor.position runs.shift cursor.rest filled]

theorem Fits.settle (fits : runs.Fits cursor) : runs.Fits cursor.settle :=
  cursor.reaches_settle.fits fits fun none_ read => by rwa [Cursor.settle_of_isRead read]

theorem other_advance (filled : runs.tail = [] ∨ cursor.ahead ≠ []) :
    (runs.other cursor).advance = (cursor.advance.1, runs.other cursor.advance.2) := by
  have settled := other_settle filled
  unfold Cursor.advance
  rw [settled]
  cases rest : cursor.settle.rest with
  | nil =>
    have nothing : cursor.ahead = [] := by rw [← Cursor.ahead_settle, Cursor.ahead, rest]; rfl
    have alone : runs.tail = [] := by simpa [nothing] using filled
    simp [other, rest, alone]
  | cons token rest' => simp [other, rest, Nat.add_right_comm]

end Runs

namespace Cursor

theorem reaches_advance (cursor : Cursor) : cursor.Reaches cursor.advance.2 := by
  refine cursor.reaches_settle.trans ?_
  cases settled : cursor.settle.rest with
  | nil => simpa [advance, settled] using Reaches.refl cursor.settle
  | cons token rest =>
    simp only [advance, settled]
    exact ⟨settled ▸ List.suffix_cons _ _, by simp [settled]; omega⟩

theorem pendingDoc_advance {cursor : Cursor} (none_ : cursor.pendingDoc = none)
    (read : ∀ token ∈ cursor.rest, token.isRead = true) : cursor.advance.2.pendingDoc = none := by
  unfold advance
  rw [settle_of_isRead read]
  obtain ⟨rest, doc, position, skipped⟩ := cursor
  cases rest <;> simp [show doc = none from none_]

end Cursor

theorem Runs.Fits.advance {runs : Runs} {cursor : Cursor} (fits : runs.Fits cursor) :
    runs.Fits cursor.advance.2 :=
  cursor.reaches_advance.fits fits Cursor.pendingDoc_advance

/-- Both runs fail alike, or they have the same result and stand at the same tokens, as the condition
says. -/
def Runs.SameEnd {α : Type} (runs : Runs) (post : α → List Token → Prop) (start : Cursor) :
    Except NestingFault (α × Cursor) → Except NestingFault (α × Cursor) → Prop
  | .error fault, result => result = .error fault
  | .ok (a, after), result => result = .ok (a, runs.other after) ∧ runs.Fits after ∧ start.Reaches after ∧
      post a after.ahead

theorem Runs.SameEnd.later {α : Type} {runs : Runs} {post weaker : α → List Token → Prop}
    {start middle : Cursor} {result result' : Except NestingFault (α × Cursor)}
    (same : runs.SameEnd post middle result result') (reaches : start.Reaches middle)
    (weaken : ∀ a after, post a after → weaker a after) : runs.SameEnd weaker start result result' := by
  cases result with
  | error fault => exact same
  | ok result =>
    obtain ⟨same, fits, further, holds⟩ := same
    exact ⟨same, fits, reaches.trans further, weaken _ _ holds⟩

/-- A parser of the first run and one of the second run do the same with some tokens ahead. -/
def Runs.Agrees {α : Type} (runs : Runs) (first second : Parse α) (before : List Token)
    (post : α → List Token → Prop) : Prop :=
  ∀ cursor, runs.Fits cursor → cursor.ahead = before →
    runs.SameEnd post cursor (first cursor) (second (runs.other cursor))

namespace Runs.Agrees

variable {α β : Type} {runs : Runs} {before : List Token} {post : α → List Token → Prop}

theorem pure {a : α} (holds : post a before) : runs.Agrees (Pure.pure a) (Pure.pure a) before post :=
  fun cursor fits ahead => ⟨rfl, fits, .refl cursor, ahead ▸ holds⟩

theorem mono {first second : Parse α} {weaker : α → List Token → Prop}
    (agrees : runs.Agrees first second before post)
    (weaken : ∀ a after, post a after → weaker a after) : runs.Agrees first second before weaker :=
  fun cursor fits ahead => (agrees cursor fits ahead).later (.refl cursor) weaken

theorem bind {first second : Parse β} {next other : β → Parse α}
    (agrees : runs.Agrees first second before fun b middle => runs.Agrees (next b) (other b) middle post) :
    runs.Agrees (first >>= next) (second >>= other) before post := by
  intro cursor fits ahead
  have start := agrees cursor fits ahead
  simp only [Bind.bind, StateT.bind, Except.bind]
  cases run : first cursor with
  | error fault =>
    rw [run] at start
    simp only [show second (runs.other cursor) = .error fault from start]
    rfl
  | ok result =>
    obtain ⟨b, middle⟩ := result
    rw [run] at start
    obtain ⟨same, fitsMiddle, reaches, agrees⟩ := start
    simp only [same]
    exact (agrees middle fitsMiddle rfl).later reaches fun _ _ holds => holds

theorem andThen {first second : Parse β} {next other : β → Parse α} {middle : β → List Token → Prop}
    (agrees : runs.Agrees first second before middle)
    (behind : ∀ b after, middle b after → runs.Agrees (next b) (other b) after post) :
    runs.Agrees (first >>= next) (second >>= other) before post :=
  bind (agrees.mono behind)

theorem map {first second : Parse β} {f : β → α}
    (agrees : runs.Agrees first second before fun b after => post (f b) after) :
    runs.Agrees (f <$> first) (f <$> second) before post := by
  rw [map_eq_pure_bind, map_eq_pure_bind]
  exact andThen agrees fun b after holds => pure holds

theorem ite {condition : Prop} [Decidable condition] {first second first' second' : Parse α}
    (whenTrue : condition → runs.Agrees first first' before post)
    (whenFalse : ¬condition → runs.Agrees second second' before post) :
    runs.Agrees (if condition then first else second) (if condition then first' else second') before
      post := by
  split
  · exact whenTrue ‹_›
  · exact whenFalse ‹_›

/-- Two conditions that do not hold in either run. -/
theorem ite_neg {condition condition' : Prop} [Decidable condition] [Decidable condition']
    {first second first' second' : Parse α} (no : ¬condition) (no' : ¬condition')
    (agrees : runs.Agrees second second' before post) :
    runs.Agrees (if condition then first else second) (if condition' then first' else second') before
      post := by
  rwa [if_neg no, if_neg no']

theorem ahead?_settle_other {cursor : Cursor} (filled : runs.tail = [] ∨ cursor.ahead ≠ []) (n : Nat) :
    Cursor.ahead? n (runs.other cursor).settle.rest = (cursor.ahead ++ runs.tail.filter Token.isRead)[n]? := by
  rw [other_settle filled, Cursor.ahead?_eq, ← Cursor.ahead_settle cursor, Cursor.ahead, other,
    List.filter_append]

theorem tooDeep (filled : runs.tail = [] ∨ before ≠ []) :
    runs.Agrees Parse.tooDeep Parse.tooDeep before post := by
  rintro cursor fits rfl
  have first : (cursor.ahead ++ runs.tail.filter Token.isRead)[0]? = cursor.ahead[0]? := by
    rcases filled with alone | filled
    · simp [alone]
    · exact List.getElem?_append_left (List.length_pos_iff.mpr filled)
  simp only [Parse.tooDeep, ahead?_settle_other filled, Cursor.ahead?_settle, first]
  rfl

section Peek

variable {n : Nat} {next other : Option Token → Parse α}

/-- Tokens further ahead may differ. -/
theorem peek_any (filled : runs.tail = [] ∨ before ≠ [])
    (agrees : ∀ token token', runs.Agrees (next token) (other token') before post) :
    runs.Agrees (Parse.peek n >>= next) (Parse.peek n >>= other) before post := by
  intro cursor fits ahead
  have same := other_settle (ahead ▸ filled : runs.tail = [] ∨ cursor.ahead ≠ [])
  have run := agrees (Cursor.ahead? (n - 1) cursor.settle.rest)
    (Cursor.ahead? (n - 1) (runs.other cursor).settle.rest) cursor.settle fits.settle
    (cursor.ahead_settle.trans ahead)
  rw [← same] at run
  exact run.later cursor.reaches_settle fun _ _ holds => holds

/-- Behind a look ahead the cursor stands at a token that is read. -/
theorem peek_settled (enough : runs.tail = [] ∨ n - 1 < before.length)
    (agrees : ∀ cursor, runs.Fits cursor → cursor.ahead = before → cursor.settle = cursor →
      runs.SameEnd post cursor (next before[n - 1]? cursor) (other before[n - 1]? (runs.other cursor))) :
    runs.Agrees (Parse.peek n >>= next) (Parse.peek n >>= other) before post := by
  rintro cursor fits rfl
  have filled : runs.tail = [] ∨ cursor.ahead ≠ [] :=
    enough.imp_right fun longer => List.ne_nil_of_length_pos (by omega)
  have token : Cursor.ahead? (n - 1) (runs.other cursor).settle.rest = cursor.ahead[n - 1]? := by
    rw [ahead?_settle_other filled]
    rcases enough with alone | longer
    · simp [alone]
    · exact List.getElem?_append_left longer
  have run := agrees cursor.settle fits.settle cursor.ahead_settle cursor.settle_settle
  rw [← other_settle filled] at run
  have whole : (Parse.peek n >>= next) cursor = next cursor.ahead[n - 1]? cursor.settle := by
    rw [← Cursor.ahead?_settle]
    rfl
  have whole' : (Parse.peek n >>= other) (runs.other cursor) =
      other cursor.ahead[n - 1]? (runs.other cursor).settle := by
    rw [← token]
    rfl
  rw [whole, whole']
  exact run.later cursor.reaches_settle fun _ _ holds => holds

theorem peek (enough : runs.tail = [] ∨ n - 1 < before.length)
    (agrees : runs.Agrees (next before[n - 1]?) (other before[n - 1]?) before post) :
    runs.Agrees (Parse.peek n >>= next) (Parse.peek n >>= other) before post :=
  peek_settled enough fun cursor fits ahead _ => agrees cursor fits ahead

theorem advance (filled : runs.tail = [] ∨ before ≠ [])
    (agrees : runs.Agrees (next before.head?) (other before.head?) before.tail post) :
    runs.Agrees (Parse.advance >>= next) (Parse.advance >>= other) before post := by
  rintro cursor fits rfl
  have same := other_advance filled
  have run := agrees cursor.advance.2 fits.advance cursor.ahead_advance
  rw [← cursor.advance_fst] at run
  have whole : (Parse.advance >>= other) (runs.other cursor) =
      other cursor.advance.1 (runs.other cursor.advance.2) := by
    show other (runs.other cursor).advance.1 (runs.other cursor).advance.2 = _
    rw [same]
  rw [whole]
  exact run.later cursor.reaches_advance fun _ _ holds => holds

end Peek

theorem skip {next other : Unit → Parse α} (filled : runs.tail = [] ∨ before ≠ [])
    (agrees : runs.Agrees (next ()) (other ()) before.tail post) :
    runs.Agrees (Parse.skip >>= next) (Parse.skip >>= other) before post := by
  rintro cursor fits rfl
  have same := other_advance filled
  have reaches := cursor.reaches_advance
  have ahead := cursor.ahead_advance
  have fitsAfter := fits.advance
  simp only [Bind.bind, StateT.bind, Except.bind, Parse.skip, same]
  cases moved : cursor.advance with
  | mk token after =>
    rw [moved] at reaches ahead fitsAfter
    cases token with
    | none => exact (agrees after fitsAfter ahead).later reaches fun _ _ holds => holds
    | some token =>
      have run := agrees { after with skipped := after.skipped + 1 }
        ⟨fitsAfter.rounds, fitsAfter.otherRounds, fitsAfter.bare⟩ ahead
      have shifted : runs.other { after with skipped := after.skipped + 1 } =
          { runs.other after with skipped := (runs.other after).skipped + 1 } := by
        simp [Runs.other, Nat.add_right_comm]
      rw [shifted] at run
      exact run.later ⟨reaches.suffix, reaches.place⟩ fun _ _ holds => holds

/-- Only the second run of the whole source has doc comments. -/
theorem takeDoc {next other : Option String → Parse α} (filled : runs.tail = [] ∨ before ≠ [])
    (agrees : ∀ doc, (runs.tail = [] ∨ doc = none) → runs.Agrees (next doc) (other doc) before post) :
    runs.Agrees (Parse.takeDoc >>= next) (Parse.takeDoc >>= other) before post := by
  intro cursor fits ahead
  have same := other_settle (ahead ▸ filled : runs.tail = [] ∨ cursor.ahead ≠ [])
  have run := agrees cursor.settle.pendingDoc (fits.settle.bare.imp_right And.left)
    { cursor.settle with pendingDoc := none }
    ⟨fits.settle.rounds, fits.settle.otherRounds, fits.settle.bare.imp_right fun bare => ⟨rfl, bare.2⟩⟩
    (cursor.ahead_settle.trans ahead)
  have whole : (Parse.takeDoc >>= other) (runs.other cursor) =
      other cursor.settle.pendingDoc (runs.other { cursor.settle with pendingDoc := none }) := by
    show other (runs.other cursor).settle.pendingDoc { (runs.other cursor).settle with pendingDoc := none } = _
    rw [same]
    rfl
  rw [whole]
  exact run.later ⟨cursor.reaches_settle.suffix, cursor.reaches_settle.place⟩ fun _ _ holds => holds

theorem setDoc {doc : Option String} {next other : Unit → Parse α} (bare : runs.tail = [] ∨ doc = none)
    (agrees : runs.Agrees (next ()) (other ()) before post) :
    runs.Agrees (Parse.setDoc doc >>= next) (Parse.setDoc doc >>= other) before post := by
  intro cursor fits ahead
  have noDoc : runs.tail = [] ∨ doc = none ∧ ∀ token ∈ cursor.rest, token.isRead = true := by
    rcases fits.bare with alone | read
    · exact .inl alone
    · exact bare.imp_right fun none_ => ⟨none_, read.2⟩
  have run := agrees { cursor with pendingDoc := doc } ⟨fits.rounds, fits.otherRounds, noDoc⟩ ahead
  exact run.later ⟨List.suffix_refl _, rfl⟩ fun _ _ holds => holds

theorem takeSign {text : String} {next other : Bool → Parse α} (filled : runs.tail = [] ∨ before ≠ [])
    (taken : isSign before.head? text = true → runs.Agrees (next true) (other true) before.tail post)
    (left : isSign before.head? text = false → runs.Agrees (next false) (other false) before post) :
    runs.Agrees (Parse.takeSign text >>= next) (Parse.takeSign text >>= other) before post := by
  simp only [Parse.takeSign, bind_assoc]
  refine peek (filled.imp_right List.length_pos_iff.mpr) ?_
  rw [← List.head?_eq_getElem?]
  cases sign : isSign before.head? text with
  | true => simpa using advance filled (taken sign)
  | false => simpa using left sign

/-- Whether a parser has moved shows in its position if no doc comments come next. -/
theorem moved {first second : Parse β} {still moves still' moves' : β → Parse α} {token : Token}
    {rest : List Token} {middle : β → List Token → Prop}
    (agrees : runs.Agrees first second (token :: rest) middle)
    (whenStill : ∀ b, middle b (token :: rest) → runs.Agrees (still b) (still' b) (token :: rest) post)
    (whenMoved : ∀ b after, middle b after → after.length ≤ rest.length →
      runs.Agrees (moves b) (moves' b) after post)
    {cursor : Cursor} (fits : runs.Fits cursor) (ahead : cursor.ahead = token :: rest)
    (settled : cursor.settle = cursor) :
    runs.SameEnd post cursor
      ((Parse.position >>= fun start => first >>= fun b => Parse.position >>= fun now =>
        if (now == start) = true then still b else moves b) cursor)
      ((Parse.position >>= fun start => second >>= fun b => Parse.position >>= fun now =>
        if (now == start) = true then still' b else moves' b) (runs.other cursor)) := by
  have run := agrees cursor fits ahead
  simp only [Bind.bind, StateT.bind, Except.bind, Parse.position]
  cases result : first cursor with
  | error fault =>
    rw [result] at run
    simp only [show second (runs.other cursor) = .error fault from run]
    rfl
  | ok result' =>
    obtain ⟨b, after⟩ := result'
    rw [result] at run
    obtain ⟨same, fitsAfter, reaches, holds⟩ := run
    have place : (runs.other after).position == (runs.other cursor).position ↔
        after.position == cursor.position := by simp [Runs.other]
    simp only [same, place]
    cases still_ : after.position == cursor.position with
    | true =>
      have aheadAfter : after.ahead = token :: rest := (reaches.ahead_eq (by simpa using still_)).trans ahead
      exact (whenStill b (aheadAfter ▸ holds) after fitsAfter aheadAfter).later reaches fun _ _ holds => holds
    | false =>
      have shorter := reaches.ahead_length_le_of_moved settled ahead (by simpa using still_)
      exact (whenMoved b after.ahead holds shorter after fitsAfter rfl).later reaches fun _ _ holds => holds

section Repeat

variable {σ : Type} {step step' : σ → Parse (σ × Bool)} {during done : σ → List Token → Prop}
  (round : ∀ value before, during value before → runs.Agrees (step value) (step' value) before
    fun result after => if result.2 then during result.1 after ∧ after.length < before.length
      else done result.1 after)

include round

/-- Two loops agree if a round that asks for more takes a token. -/
theorem repeatRounds {value : σ} {rounds otherRounds : Nat} (holds : during value before)
    (enough : before.length < rounds) (enoughOther : before.length < otherRounds) :
    runs.Agrees (Parse.repeatStep step rounds value) (Parse.repeatStep step' otherRounds value) before
      done := by
  induction rounds generalizing value before otherRounds with
  | zero => cases enough
  | succ rounds ih =>
    obtain ⟨otherRounds, rfl⟩ : ∃ fewer, otherRounds = fewer + 1 := ⟨otherRounds - 1, by omega⟩
    refine andThen (round value before holds) fun result after kept => ?_
    obtain ⟨value, more⟩ := result
    cases more with
    | false => exact pure kept
    | true =>
      obtain ⟨holds, shorter⟩ := kept
      exact ih holds (by omega) (by omega)

theorem repeatStep {value : σ} (holds : during value before) :
    runs.Agrees (Parse.repeatStep step runs.rounds value) (Parse.repeatStep step' runs.otherRounds value)
      before done := by
  intro cursor fits ahead
  have shorter : before.length ≤ cursor.rest.length := by
    rw [← ahead]
    exact List.length_filter_le _ _
  exact repeatRounds round holds (Nat.lt_of_le_of_lt shorter fits.rounds)
    (Nat.lt_of_le_of_lt shorter fits.otherRounds) cursor fits ahead

end Repeat

end Runs.Agrees

end FormHarvest
