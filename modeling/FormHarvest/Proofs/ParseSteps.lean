import FormHarvest.Php.Cursor

namespace FormHarvest

/-- Whether a token is one that the parser reads: doc comments are only noted. -/
def Token.isRead (token : Token) : Bool := token.kind != .docComment

theorem isSign_eq_false_of_isSign {token : Option Token} {text other : String} (apart : text ≠ other)
    (sign : isSign token text = true) : isSign token other = false := by
  cases token with
  | none => rfl
  | some token =>
    have same : token.text = text := by simp_all [isSign]
    simp [isSign, same, apart]

namespace Cursor

/-- The tokens that are left to be read. -/
def ahead (cursor : Cursor) : List Token := cursor.rest.filter Token.isRead

theorem settleFrom_rest (doc : Option String) (position : Nat) (tokens : List Token) :
    (settleFrom doc position tokens).2.2 = tokens.dropWhile fun token => !token.isRead := by
  induction tokens generalizing doc position with
  | nil => rfl
  | cons token rest ih =>
    by_cases comment : token.kind = .docComment
    · simp [settleFrom, Token.isRead, comment, ih]
    · simp [settleFrom, Token.isRead, comment]

theorem filter_dropWhile_not (test : Token → Bool) (tokens : List Token) :
    (tokens.dropWhile fun token => !test token).filter test = tokens.filter test := by
  induction tokens with
  | nil => rfl
  | cons token rest ih =>
    by_cases passed : test token = true
    · simp [passed]
    · simp [passed, ih]

@[simp] theorem ahead_settle (cursor : Cursor) : cursor.settle.ahead = cursor.ahead := by
  have settled : cursor.settle.rest = cursor.rest.dropWhile fun token => !token.isRead :=
    settleFrom_rest cursor.pendingDoc cursor.position cursor.rest
  rw [ahead, ahead, settled, filter_dropWhile_not]

theorem ahead?_eq (n : Nat) (tokens : List Token) :
    ahead? n tokens = (tokens.filter Token.isRead)[n]? := by
  induction tokens generalizing n with
  | nil => rfl
  | cons token rest ih =>
    by_cases comment : token.kind = .docComment
    · simp [ahead?, Token.isRead, comment, ih]
    · have isRead : token.isRead = true := by simpa [Token.isRead] using comment
      rw [List.filter_cons_of_pos isRead]
      cases n <;> simp [ahead?, comment, ih]

theorem ahead?_settle (n : Nat) (cursor : Cursor) : ahead? n cursor.settle.rest = cursor.ahead[n]? := by
  rw [ahead?_eq, ← ahead_settle cursor, ahead]

theorem ahead_eq_of_settle {cursor : Cursor} {token : Token} {rest : List Token}
    (settled : cursor.settle.rest = token :: rest) :
    cursor.ahead = token :: rest.filter Token.isRead := by
  have dropped : cursor.settle.rest = cursor.rest.dropWhile fun token => !token.isRead :=
    settleFrom_rest cursor.pendingDoc cursor.position cursor.rest
  have first := List.head?_dropWhile_not (fun token : Token => !token.isRead) cursor.rest
  rw [← dropped, settled] at first
  have isRead : token.isRead = true := by simpa using first
  rw [← ahead_settle, ahead, settled, List.filter_cons_of_pos isRead]

theorem advance_fst (cursor : Cursor) : cursor.advance.1 = cursor.ahead.head? := by
  cases settled : cursor.settle.rest with
  | nil =>
    rw [← ahead_settle, ahead, settled]
    simp only [advance, settled]
    rfl
  | cons token rest =>
    rw [ahead_eq_of_settle settled]
    simp only [advance, settled]
    rfl

theorem ahead_advance (cursor : Cursor) : cursor.advance.2.ahead = cursor.ahead.tail := by
  cases settled : cursor.settle.rest with
  | nil =>
    rw [← ahead_settle cursor, ahead, ahead, settled]
    simp only [advance, settled]
    rfl
  | cons token rest =>
    rw [ahead_eq_of_settle settled]
    simp only [advance, settled]
    rfl

end Cursor

namespace Parse

/-- With some tokens ahead a parser fails, or its result and the tokens that it leaves are as the
condition says. -/
def Yields {α : Type} (parse : Parse α) (before : List Token) (post : α → List Token → Prop) : Prop :=
  ∀ cursor a after, cursor.ahead = before → parse cursor = .ok (a, after) → post a after.ahead

namespace Yields

variable {α β : Type} {before : List Token} {post : α → List Token → Prop}

theorem pure {a : α} (holds : post a before) : Yields (Pure.pure a) before post := by
  intro cursor b after atStart run
  cases run
  rwa [atStart]

theorem bind {parse : Parse β} {next : β → Parse α}
    (first : parse.Yields before fun b middle => (next b).Yields middle post) :
    (parse >>= next).Yields before post := by
  intro cursor a after atStart run
  cases step : parse cursor with
  | error fault => simp [Bind.bind, StateT.bind, Except.bind, step] at run
  | ok result =>
    obtain ⟨b, middle⟩ := result
    simp only [Bind.bind, StateT.bind, Except.bind, step] at run
    exact first cursor b middle atStart step middle a after rfl run

theorem mono {parse : Parse α} {weaker : α → List Token → Prop} (yields : parse.Yields before post)
    (weaken : ∀ a after, post a after → weaker a after) : parse.Yields before weaker :=
  fun cursor a after atStart run => weaken a after.ahead (yields cursor a after atStart run)

theorem andThen {parse : Parse β} {next : β → Parse α} {middle : β → List Token → Prop}
    (first : parse.Yields before middle)
    (second : ∀ b after, middle b after → (next b).Yields after post) :
    (parse >>= next).Yields before post :=
  bind (first.mono second)

theorem map {parse : Parse β} {f : β → α} (yields : parse.Yields before fun b after => post (f b) after) :
    (f <$> parse).Yields before post := by
  rw [map_eq_pure_bind]
  exact andThen yields fun b after holds => pure holds

theorem tooDeep : (tooDeep : Parse α).Yields before post := by
  intro cursor a after atStart run
  cases run

theorem ite {condition : Prop} [Decidable condition] {first second : Parse α}
    (whenTrue : condition → first.Yields before post)
    (whenFalse : ¬condition → second.Yields before post) :
    (if condition then first else second).Yields before post := by
  split
  · exact whenTrue ‹_›
  · exact whenFalse ‹_›

theorem peek {n : Nat} {post : Option Token → List Token → Prop} (holds : post before[n - 1]? before) :
    (Parse.peek n).Yields before post := by
  intro cursor token after atStart run
  cases run
  rwa [Cursor.ahead_settle, Cursor.ahead?_settle, atStart]

theorem advance {post : Option Token → List Token → Prop} (holds : post before.head? before.tail) :
    Parse.advance.Yields before post := by
  intro cursor token after atStart run
  obtain ⟨rfl, rfl⟩ : cursor.advance.1 = token ∧ cursor.advance.2 = after := by
    simpa [Parse.advance, Prod.ext_iff] using run
  rwa [Cursor.advance_fst, Cursor.ahead_advance, atStart]

theorem skip {post : Unit → List Token → Prop} (holds : post () before.tail) :
    Parse.skip.Yields before post := by
  intro cursor a after atStart run
  have moved := cursor.ahead_advance
  rw [atStart] at moved
  simp only [Parse.skip] at run
  split at run <;> rename_i same <;> cases run <;> rw [same] at moved
  · rwa [moved]
  · exact moved ▸ holds

theorem takeDoc {post : Option String → List Token → Prop} (holds : ∀ doc, post doc before) :
    Parse.takeDoc.Yields before post := by
  intro cursor doc after atStart run
  cases run
  have same : Cursor.ahead { cursor.settle with pendingDoc := none } = before := by
    rw [← atStart, ← cursor.ahead_settle]
    rfl
  rw [same]
  exact holds _

theorem setDoc {doc : Option String} {post : Unit → List Token → Prop} (holds : post () before) :
    (Parse.setDoc doc).Yields before post := by
  intro cursor a after atStart run
  cases run
  exact atStart ▸ holds

theorem position {post : Nat → List Token → Prop} (holds : ∀ n, post n before) :
    Parse.position.Yields before post := by
  intro cursor a after atStart run
  cases run
  exact atStart ▸ holds _

theorem takeSign {text : String} {post : Bool → List Token → Prop}
    (taken : isSign before.head? text = true → post true before.tail) (left : post false before) :
    (Parse.takeSign text).Yields before post := by
  refine bind (peek (.ite (fun sign => ?_) fun _ => .pure left))
  have sign : isSign before.head? text = true := by rwa [List.head?_eq_getElem?]
  exact bind (advance (.pure (taken sign)))

/-- What every round of a loop keeps holds behind the loop. -/
theorem repeatStep {step : α → Parse (α × Bool)} {rounds : Nat} {value : α}
    (keeps : ∀ value before, post value before →
      (step value).Yields before fun result after => post result.1 after)
    (holds : post value before) : (Parse.repeatStep step rounds value).Yields before post := by
  induction rounds generalizing value before with
  | zero => exact pure holds
  | succ rounds ih =>
    refine bind ((keeps value before holds).mono fun result after kept => ?_)
    obtain ⟨next, more⟩ := result
    exact ite (fun _ => ih kept) fun _ => pure kept

end Yields

section Rounds

variable {σ : Type} {step : σ → Parse (σ × Bool)} {value : σ} {cursor : Cursor} (rounds : Nat)

theorem repeatStep_of_error {fault : NestingFault} (failed : step value cursor = .error fault) :
    repeatStep step (rounds + 1) value cursor = .error fault := by
  simp only [repeatStep, Bind.bind, StateT.bind, Except.bind, failed]

theorem repeatStep_of_ok {next : σ} {after : Cursor} (run : step value cursor = .ok ((next, true), after)) :
    repeatStep step (rounds + 1) value cursor = repeatStep step rounds next after := by
  simp only [repeatStep, Bind.bind, StateT.bind, Except.bind, run, if_true]

theorem repeatStep_of_last {last : σ} {after : Cursor} (run : step value cursor = .ok ((last, false), after)) :
    repeatStep step (rounds + 1) value cursor = .ok (last, after) := by
  simp only [repeatStep, Bind.bind, StateT.bind, Except.bind, run]
  rfl

end Rounds

end Parse

end FormHarvest
