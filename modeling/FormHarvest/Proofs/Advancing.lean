import FormHarvest.Proofs.TwoRuns

namespace FormHarvest

/-- A cursor comes to stand behind a token that was left to be read. -/
structure Cursor.Passes (cursor after : Cursor) : Prop extends cursor.Reaches after where
  fewer : after.ahead.length < cursor.ahead.length

theorem Cursor.settle_rest_eq_nil {cursor : Cursor} (nothing : cursor.ahead = []) :
    cursor.settle.rest = [] := by
  cases settled : cursor.settle.rest with
  | nil => rfl
  | cons token rest => rw [Cursor.ahead_eq_of_settle settled] at nothing; cases nothing

namespace Parse

variable {α β σ : Type}

/-- A run fails only if it may. Otherwise it comes to stand no earlier, and its result and the tokens
that it leaves are as the condition says. -/
def Ends (fails : Prop) (post : α → List Token → Prop) (start : Cursor) :
    Except NestingFault (α × Cursor) → Prop
  | .error _ => fails
  | .ok (a, after) => start.Reaches after ∧ post a after.ahead

/-- How a parser ends with some tokens ahead. -/
def Moves (parse : Parse α) (fails : Prop) (before : List Token) (post : α → List Token → Prop) : Prop :=
  ∀ cursor, cursor.ahead = before → Ends fails post cursor (parse cursor)

/-- A parser never comes to stand earlier. -/
def Advances (parse : Parse α) (fails : Prop) (before : List Token) : Prop :=
  parse.Moves fails before fun _ _ => True

/-- A parser takes the next token. -/
def Takes (parse : Parse α) (fails : Prop) (before : List Token) : Prop :=
  parse.Moves fails before fun _ after => after.length ≤ before.tail.length

/-- A parser has taken a token where it finds a tree. -/
def Finds (parse : Parse (Option Node)) (fails : Prop) (before : List Token) : Prop :=
  parse.Moves fails before fun found after => found.isSome = true → after.length < before.length

/-- A round has taken a token where it asks for another one. -/
def Turns (round : Parse (σ × Bool)) (fails : Prop) (before : List Token) : Prop :=
  round.Moves fails before fun result after => result.2 = true → after.length < before.length

theorem Ends.later {fails : Prop} {post weaker : α → List Token → Prop} {start middle : Cursor}
    {result : Except NestingFault (α × Cursor)} (ends : Ends fails post middle result)
    (reaches : start.Reaches middle)
    (weaken : ∀ a after, after.length ≤ middle.ahead.length → post a after → weaker a after) :
    Ends fails weaker start result := by
  cases result with
  | error fault => exact ends
  | ok result => exact ⟨reaches.trans ends.1, weaken _ _ ends.1.ahead_length_le ends.2⟩

namespace Moves

variable {fails : Prop} {before rest : List Token} {token : Token} {post : α → List Token → Prop}

theorem pure {a : α} (holds : post a before) : (Pure.pure a : Parse α).Moves fails before post :=
  fun cursor ahead => ⟨.refl cursor, ahead ▸ holds⟩

theorem bind {parse : Parse β} {next : β → Parse α}
    (first : parse.Moves fails before fun b middle => (next b).Moves fails middle post) :
    (parse >>= next).Moves fails before post := by
  intro cursor ahead
  have start := first cursor ahead
  simp only [Bind.bind, StateT.bind, Except.bind]
  cases run : parse cursor with
  | error fault => rwa [run] at start
  | ok result =>
    obtain ⟨b, middle⟩ := result
    rw [run] at start
    exact (start.2 middle rfl).later start.1 fun _ _ _ holds => holds

theorem mono {parse : Parse α} {weaker : α → List Token → Prop} (moves : parse.Moves fails before post)
    (weaken : ∀ a after, after.length ≤ before.length → post a after → weaker a after) :
    parse.Moves fails before weaker := by
  rintro cursor rfl
  exact (moves cursor rfl).later (.refl cursor) weaken

theorem andThen {parse : Parse β} {next : β → Parse α} {middle : β → List Token → Prop}
    (first : parse.Moves fails before middle)
    (behind : ∀ b after, after.length ≤ before.length → middle b after → (next b).Moves fails after post) :
    (parse >>= next).Moves fails before post :=
  bind (first.mono behind)

theorem map {parse : Parse β} {f : β → α} (moves : parse.Moves fails before fun b after => post (f b) after) :
    (f <$> parse).Moves fails before post := by
  rw [map_eq_pure_bind]
  exact andThen moves fun b after _ holds => pure holds

theorem ite {condition : Prop} [Decidable condition] {first second : Parse α}
    (whenTrue : condition → first.Moves fails before post)
    (whenFalse : ¬condition → second.Moves fails before post) :
    (if condition then first else second).Moves fails before post := by
  split
  · exact whenTrue ‹_›
  · exact whenFalse ‹_›

theorem tooDeep (may : fails) : (Parse.tooDeep : Parse α).Moves fails before post := fun _ _ => may

theorem peek {n : Nat} {post : Option Token → List Token → Prop} (holds : post before[n - 1]? before) :
    (Parse.peek n).Moves fails before post := by
  rintro cursor rfl
  refine ⟨cursor.reaches_settle, ?_⟩
  rwa [Cursor.ahead_settle, Cursor.ahead?_settle]

/-- Behind a look ahead the cursor stands at a token that is read. -/
theorem peek_settled {n : Nat} {next : Option Token → Parse α}
    (moves : ∀ cursor, cursor.ahead = before → cursor.settle = cursor →
      Ends fails post cursor (next before[n - 1]? cursor)) :
    (Parse.peek n >>= next).Moves fails before post := by
  rintro cursor rfl
  have run := moves cursor.settle cursor.ahead_settle cursor.settle_settle
  rw [← Cursor.ahead?_settle] at run
  exact run.later cursor.reaches_settle fun _ _ _ holds => holds

theorem advance {post : Option Token → List Token → Prop} (holds : post before.head? before.tail) :
    Parse.advance.Moves fails before post := by
  rintro cursor rfl
  rw [← cursor.advance_fst, ← cursor.ahead_advance] at holds
  exact ⟨cursor.reaches_advance, holds⟩

theorem skip {post : Unit → List Token → Prop} (holds : post () before.tail) :
    Parse.skip.Moves fails before post := by
  rintro cursor rfl
  have reaches := cursor.reaches_advance
  rw [← cursor.ahead_advance] at holds
  simp only [Parse.skip]
  cases moved : cursor.advance with
  | mk token after =>
    rw [moved] at reaches holds
    cases token with
    | none => exact ⟨reaches, holds⟩
    | some token => exact ⟨⟨reaches.suffix, reaches.place⟩, holds⟩

theorem takeDoc {post : Option String → List Token → Prop} (holds : ∀ doc, post doc before) :
    Parse.takeDoc.Moves fails before post := by
  rintro cursor rfl
  have reaches := cursor.reaches_settle
  have same : Cursor.ahead { cursor.settle with pendingDoc := none } = cursor.ahead := cursor.ahead_settle
  exact ⟨⟨reaches.suffix, reaches.place⟩, same ▸ holds _⟩

theorem setDoc {doc : Option String} {post : Unit → List Token → Prop} (holds : post () before) :
    (Parse.setDoc doc).Moves fails before post := by
  rintro cursor rfl
  exact ⟨⟨List.suffix_refl _, rfl⟩, holds⟩

theorem takeSign {text : String} {post : Bool → List Token → Prop}
    (taken : isSign before.head? text = true → before.tail.length < before.length → post true before.tail)
    (left : post false before) : (Parse.takeSign text).Moves fails before post := by
  refine bind (peek (ite (fun sign => ?_) fun _ => pure left))
  cases before with
  | nil => cases sign
  | cons token rest => exact bind (advance (pure (taken sign (Nat.lt_succ_self _))))

/-- What is said about a parser says at least where it stands. -/
theorem advances {parse : Parse α} (moves : parse.Moves fails before post) : parse.Advances fails before :=
  moves.mono fun _ _ _ _ => trivial

/-- A parser that starts within some tokens stays within them, whatever is asked for. -/
theorem within {parse : Parse α} {asks : α → Prop} {limit : Nat} (advances : parse.Advances fails before)
    (short : before.length < limit) :
    parse.Moves fails before fun a after => asks a → after.length < limit :=
  advances.mono fun _ _ shorter _ _ => Nat.lt_of_le_of_lt shorter short

theorem takes {next : Option Token → Parse α}
    (advances : ∀ token, (next token).Advances fails before.tail) :
    (Parse.advance >>= next).Takes fails before :=
  bind (advance ((advances _).mono fun _ _ shorter _ => shorter))

/-- At a token a parser that takes the next one has taken one, whatever is asked for. -/
theorem ofTakes {parse : Parse α} {asks : α → Prop} (takes : parse.Takes fails (token :: rest)) :
    parse.Moves fails (token :: rest) fun a after => asks a → after.length < (token :: rest).length :=
  takes.mono fun _ _ _ shorter _ => Nat.lt_succ_of_le shorter

/-- A result is made where the parser stands. -/
theorem made {parse : Parse β} {f : β → α} {middle : β → List Token → Prop}
    (moves : parse.Moves fails before middle) : (parse >>= fun b => Pure.pure (f b)).Advances fails before :=
  andThen moves fun _ _ _ _ => pure trivial

/-- What is skipped is a token if there was one. -/
theorem skipped {next : Parse α} {asks : α → Prop} {limit : Nat} (short : before.length ≤ limit)
    (positive : 0 < limit) (advances : next.Advances fails before.tail) :
    (Parse.skip >>= fun _ => next).Moves fails before fun a after => asks a → after.length < limit :=
  bind (skip (within advances (by rw [List.length_tail]; omega)))

/-- Whether a parser has moved shows in its position if no doc comments come next. -/
theorem moved {parse : Parse β} {still moves : β → Parse α} (first : parse.Advances fails (token :: rest))
    (whenStill : ∀ b, (still b).Moves fails (token :: rest) post)
    (whenMoved : ∀ b after, after.length ≤ rest.length → (moves b).Moves fails after post)
    {cursor : Cursor} (ahead : cursor.ahead = token :: rest) (settled : cursor.settle = cursor) :
    Ends fails post cursor ((Parse.position >>= fun start => parse >>= fun b => Parse.position >>= fun now =>
      if (now == start) = true then still b else moves b) cursor) := by
  have start := first cursor ahead
  simp only [Bind.bind, StateT.bind, Except.bind, Parse.position]
  cases run : parse cursor with
  | error fault => rwa [run] at start
  | ok result =>
    obtain ⟨b, after⟩ := result
    rw [run] at start
    obtain ⟨reaches, -⟩ := start
    dsimp only
    cases still_ : after.position == cursor.position with
    | true =>
      have here : after.ahead = token :: rest := (reaches.ahead_eq (by simpa using still_)).trans ahead
      exact (whenStill b after here).later reaches fun _ _ _ holds => holds
    | false =>
      have shorter := reaches.ahead_length_le_of_moved settled ahead (by simpa using still_)
      exact (whenMoved b after.ahead shorter after rfl).later reaches fun _ _ _ holds => holds

theorem repeatStep {step : σ → Parse (σ × Bool)} {rounds : Nat} {value : σ}
    (turns : ∀ value middle, middle.length ≤ before.length → (step value).Turns fails middle) :
    (Parse.repeatStep step rounds value).Advances fails before := by
  induction rounds generalizing value before with
  | zero => exact pure trivial
  | succ rounds ih =>
    refine andThen (turns value before (Nat.le_refl _)) fun result after shorter _ => ?_
    obtain ⟨value, more⟩ := result
    refine ite (fun _ => ih fun value middle shorter' => ?_) fun _ => pure trivial
    exact turns value middle (Nat.le_trans shorter' shorter)

end Moves

section Primitives

variable {fails : Prop} {before : List Token}

theorem advance_advances : advance.Advances fails before := .advance trivial

theorem takeSign_advances (text : String) : (takeSign text).Advances fails before :=
  .takeSign (fun _ _ => trivial) trivial

end Primitives

/-- A loop whose rounds take tokens ends with a round that asks for no other one, not for want of
rounds. -/
theorem exists_last_round {step : σ → Parse (σ × Bool)}
    (passes : ∀ value cursor next after, step value cursor = .ok ((next, true), after) → cursor.Passes after)
    {rounds : Nat} {value result : σ} {cursor after : Cursor} (enough : cursor.ahead.length < rounds)
    (run : repeatStep step rounds value cursor = .ok (result, after)) :
    ∃ last middle, cursor.Reaches middle ∧ step last middle = .ok ((result, false), after) := by
  -- every round pays with a token for the one behind it
  induction rounds generalizing value cursor with
  | zero => cases enough
  | succ rounds ih =>
    cases round : step value cursor with
    | error fault => rw [repeatStep_of_error rounds round] at run; cases run
    | ok round' =>
      obtain ⟨⟨next, more⟩, middle⟩ := round'
      cases more with
      | false =>
        rw [repeatStep_of_last rounds round] at run
        cases run
        exact ⟨value, cursor, .refl cursor, round⟩
      | true =>
        rw [repeatStep_of_ok rounds round] at run
        have passed := passes value cursor next middle round
        obtain ⟨last, middle', reaches, ends⟩ := ih (Nat.lt_of_lt_of_le passed.fewer (Nat.le_of_lt_succ enough)) run
        exact ⟨last, middle', passed.toReaches.trans reaches, ends⟩

end Parse

end FormHarvest
