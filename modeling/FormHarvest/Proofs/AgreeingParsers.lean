import FormHarvest.Proofs.ParserParts
import FormHarvest.Proofs.PassedOver

namespace FormHarvest

open FormHarvest.Bound

/-! ### Words that start a head -/

namespace Token

variable {token : Token} {next : Option Token}

theorem headEnds?_of_arrow (name : token.kind = .name) (word : lowercase token.text = "fn") :
    token.headEnds? next = some ["=>", openBrace, ";"] := by
  simp [headEnds?, isWordIn, name, word]

theorem headEnds?_of_function (name : token.kind = .name) (word : lowercase token.text = "function") :
    token.headEnds? next = some [openBrace, ";"] := by
  simp [headEnds?, isWordIn, name, word]

theorem headEnds?_of_class (name : token.kind = .name) (word : lowercase token.text ∈ classWords)
    (named : isKind next .name = true) : token.headEnds? next = some [openBrace, ";"] := by
  have notFn : lowercase token.text ≠ "fn" := fun same => by
    rw [same] at word
    exact absurd word (by decide)
  simp [headEnds?, isWordIn, name, notFn, word, named]

theorem headEnds?_of_new (name : token.kind = .name) (word : lowercase token.text = "new")
    (anonymous : isWordIn next ["class"] = true) : token.headEnds? next = some [openBrace, ";"] := by
  simp [headEnds?, isWordIn, name, word] at anonymous ⊢
  simp [anonymous]

theorem headEnds?_of_use (name : token.kind = .name) (word : lowercase token.text = "use")
    (noParenthesis : isSign next "(" = false) : token.headEnds? next = some [openBrace, ";"] := by
  simp [headEnds?, isWordIn, name, word, noParenthesis]

end Token

/-! ### What the parsers leave -/

/-- What an expression leaves: with a tree it has taken a token. Without one it has not come to stand
at the closing sign of the bracket around it. -/
def Runs.Leaves (runs : Runs) (bound : Bound) (limit : Nat) (before : List Token) :
    Option Node → List Token → Prop
  | some _, after => runs.Room bound limit after
  | none, after => runs.Room bound (limit + 1) after ∧
    (HeadIn closers bound → Ahead bound before → Ahead bound after)

theorem Runs.Leaves.room {runs : Runs} {bound : Bound} {limit : Nat} {before after : List Token}
    {found : Option Node} (leaves : runs.Leaves bound limit before found after) :
    runs.Room bound (limit + 1) after := by
  cases found with
  | none => exact leaves.1
  | some node => exact Runs.Room.mono leaves (Nat.le_succ _)

/-- Two parsers of expressions agree before every bound. -/
def Runs.Reads (runs : Runs) (first second : Parse (Option Node)) : Prop :=
  ∀ {bound limit before}, runs.Room bound (limit + 1) before → HeadIn stopSigns bound →
    runs.Agrees first second before (runs.Leaves bound limit before)

theorem Runs.Reads.agrees {runs : Runs} {first second : Parse (Option Node)} {bound : Bound} {limit : Nat}
    {before : List Token} (reads : runs.Reads first second) (room : runs.Room bound limit before)
    (stops : HeadIn stopSigns bound) :
    runs.Agrees first second before fun _ after => runs.Room bound limit after :=
  (reads room.exact_ stops).mono fun _ _ left => left.room.mono room.short

/-- Two parsers agree inside brackets, which they leave at the latest with the closing sign. -/
def Runs.Closes {α : Type} (runs : Runs) (close : String) (first second : Parse α) : Prop :=
  ∀ {bound inside limit before}, Within close bound inside → runs.Room inside limit before →
    runs.Agrees first second before fun _ after => runs.Room bound limit after

/-- The parsers for what stands inside brackets agree. -/
structure Runs.Alike (runs : Runs) (inner inner' : Inner) : Prop where
  statements : runs.Closes closeBrace (inner.statements (some closeBrace)) (inner'.statements (some closeBrace))
  expression (least : Nat) : runs.Reads (inner.expression least) (inner'.expression least)
  unary : runs.Reads inner.unary inner'.unary
  primary : runs.Reads inner.primary inner'.primary

namespace Parse

variable {runs : Runs} {inner inner' : Inner} {bound : Bound} {limit : Nat} {before rest : List Token}
  {token : Token} {signs : List String} {close : String}

theorem agrees_enter {α : Type} {first second : Parse α} (closes : runs.Closes close first second)
    (room : runs.Room bound (limit + 1) (token :: rest)) (ahead : Ahead bound (token :: rest))
    (opens : token.closing? = some close) :
    runs.Agrees first second rest fun _ after => runs.Room bound limit after := by
  obtain ⟨inside, within, roomInside, -⟩ := room.enter ahead opens
  exact closes within roomInside

theorem agrees_listStep (alike : runs.Alike inner inner') (member : close ∈ closers) (separators : List String)
    {inside : Bound} (within : Within close bound inside) (nodes : List Node) (before : List Token)
    (room : runs.Room inside limit before) :
    runs.Agrees (listStep inner close separators nodes) (listStep inner' close separators nodes) before
      fun result after =>
        if result.2 then runs.Room inside limit after ∧ after.length < before.length
        else runs.Room bound limit after := by
  have stops := within.stops member
  refine .peek (room.filled.imp_right List.length_pos_iff.mpr) ?_
  cases before with
  | nil => exact .pure (room.leave within member)
  | cons token rest =>
    refine .ite (fun _ => .advance room.filled (.pure (room.pass within member))) fun noCloser => ?_
    have ahead : Ahead inside (token :: rest) :=
      room.ahead within.headIn (by simpa [Token.isSignIn] using noCloser)
    have shorter : rest.length < (token :: rest).length := Nat.lt_succ_self _
    have positive : 0 < (token :: rest).length := Nat.succ_pos _
    refine .ite (fun _ => .advance room.filled (.pure ⟨room.drop ahead, shorter⟩)) fun _ =>
      .peek (room.enough ahead) (.ite (fun label => ?_) fun _ => ?_)
    · cases rest with
      | nil => simp [isSign] at label
      | cons colon rest =>
        obtain ⟨-, label⟩ := Bool.and_eq_true_iff.mp label
        have roomColon := room.drop ahead
        have aheadColon := roomColon.ahead_of_isSign stops label (by decide)
        exact .advance room.filled (.advance roomColon.filled
          (.pure ⟨roomColon.drop aheadColon, Nat.lt_succ_of_lt (Nat.lt_succ_self _)⟩))
    · refine .andThen (alike.expression 0 room.exact_ stops) fun found after left => ?_
      cases found with
      | some node => exact .pure ⟨left.mono (Nat.le_of_lt room.short), left.short⟩
      | none =>
        obtain ⟨roomAfter, keeps⟩ := left
        have aheadAfter := keeps (within.headIn.mono (by simpa using member)) ahead
        have skipped := roomAfter.skip aheadAfter positive
        exact .skip roomAfter.filled (.pure ⟨skipped.mono (Nat.le_of_lt room.short), skipped.short⟩)

theorem list_closes (alike : runs.Alike inner inner') (member : close ∈ closers) (separators : List String) :
    runs.Closes close (list runs.rounds inner close separators) (list runs.otherRounds inner' close separators) := by
  intro bound inside limit before within room
  rw [list_eq, list_eq]
  exact .map (.repeatStep (agrees_listStep alike member separators within) room)

theorem agrees_arguments (alike : runs.Alike inner inner') (room : runs.Room bound (limit + 1) (token :: rest))
    (ahead : Ahead bound (token :: rest)) (opens : isSign (some token) "(" = true) :
    runs.Agrees (arguments runs.rounds inner) (arguments runs.otherRounds inner') (token :: rest)
      fun _ after => runs.Room bound limit after :=
  .advance room.filled
    (agrees_enter (list_closes alike (by decide) [","]) room ahead (Token.closing?_eq_paren.mpr opens))

theorem agrees_optionalArguments (alike : runs.Alike inner inner') (room : runs.Room bound limit before)
    (head : HeadIn signs bound) (noParen : "(" ∉ signs) :
    runs.Agrees (optionalArguments runs.rounds inner) (optionalArguments runs.otherRounds inner') before
      fun _ after => runs.Room bound limit after := by
  refine .peek (room.filled.imp_right List.length_pos_iff.mpr) (.ite (fun paren => ?_) fun _ => .pure room)
  cases before with
  | nil => cases paren
  | cons token rest =>
    have ahead := room.ahead_of_isSign head paren noParen
    exact (agrees_arguments alike room.exact_ ahead paren).mono fun _ _ room' =>
      room'.mono (Nat.le_of_lt room.short)

/-- A list in brackets, or something without one. -/
theorem agrees_bracketed {α : Type} {text : String} {separators : List String} {next next' : List Node → Parse α}
    {other other' : Parse α} {post : α → List Token → Prop} (alike : runs.Alike inner inner')
    (room : runs.Room bound limit before) (head : HeadIn signs bound) (absent : text ∉ signs)
    (opens : ∀ {token : Token}, isSign (some token) text = true → token.closing? = some close)
    (inside : ∀ nodes after, runs.Room bound limit after → runs.Agrees (next nodes) (next' nodes) after post)
    (alone : runs.Agrees other other' before post) :
    runs.Agrees
      (takeSign text >>= fun taken => if taken then list runs.rounds inner close separators >>= next else other)
      (takeSign text >>= fun taken =>
        if taken then list runs.otherRounds inner' close separators >>= next' else other')
      before post := by
  refine .takeSign room.filled (fun sign => .ite (fun _ => ?_) fun no => absurd rfl no)
    fun _ => .ite (fun no => nomatch no) fun _ => alone
  cases before with
  | nil => cases sign
  | cons token rest =>
    have ahead := room.ahead_of_isSign head sign absent
    exact .andThen (agrees_enter (list_closes alike (Token.mem_closers_of_closing? (opens sign)) _) room.exact_ ahead
      (opens sign)) fun nodes after roomAfter => inside nodes after (roomAfter.mono (Nat.le_of_lt room.short))

theorem agrees_optionalBlock (alike : runs.Alike inner inner') (room : runs.Room bound limit before)
    (head : HeadIn signs bound) (noBrace : openBrace ∉ signs) :
    runs.Agrees (optionalBlock inner) (optionalBlock inner') before fun _ after => runs.Room bound limit after := by
  refine .takeSign room.filled (fun brace => ?_) fun _ => .pure room
  cases before with
  | nil => cases brace
  | cons token rest =>
    have ahead := room.ahead_of_isSign head brace noBrace
    exact (agrees_enter alike.statements room.exact_ ahead (Token.closing?_eq_brace.mpr brace)).mono
      fun _ _ room' => room'.mono (Nat.le_of_lt room.short)

theorem agrees_takeSign {α : Type} {text : String} {next next' : Bool → Parse α} {post : α → List Token → Prop}
    (room : runs.Room bound limit before) (head : HeadIn signs bound) (absent : text ∉ signs)
    (behind : ∀ taken after, runs.Room bound limit after → runs.Agrees (next taken) (next' taken) after post) :
    runs.Agrees (takeSign text >>= next) (takeSign text >>= next') before post := by
  refine .takeSign room.filled (fun sign => ?_) fun _ => behind false before room
  cases before with
  | nil => cases sign
  | cons token rest => exact behind true rest (room.drop (room.ahead_of_isSign head sign absent))

/-- A token that is no sign comes before the bound. -/
theorem room_tail_of_isKind {kind : TokenKind} (room : runs.Room bound limit before) (head : HeadIn signs bound)
    (other : kind ≠ .punctuation ∧ kind ≠ .operator) (named : isKind before.head? kind = true) :
    runs.Room bound limit before.tail := by
  cases before with
  | nil => cases named
  | cons token rest =>
    have same : token.kind = kind := by simpa [isKind] using named
    exact room.drop (room.ahead_of_kind head (same ▸ other))

/-- If a token does not come directly before the bound, the next one comes before it as well. -/
theorem ahead_of_apart (room : runs.Room bound limit (token :: rest)) (ahead : Ahead bound (token :: rest))
    (apart : rest ∉ bound) : Ahead bound rest := by
  have roomRest := room.drop ahead
  by_cases here : Ahead bound rest
  · exact here
  cases rest with
  | nil =>
    intro behind isBound
    obtain ⟨filled, -, -, front, parts, -⟩ := roomRest.within behind isBound
    exact absurd (List.append_eq_nil_iff.mp parts.symm).2 filled
  | cons next rest => exact absurd (roomRest.eq_of_not_ahead here) apart

theorem ahead_of_reference (room : runs.Room bound limit (token :: rest)) (closed : HeadIn closers bound)
    (reference : isSign (some token) "&" = true) : Ahead bound rest := by
  refine ahead_of_apart room (room.ahead_of_isSign closed reference (by decide)) fun same => ?_
  obtain ⟨-, suffix, complete, -⟩ := room.within _ same
  have noCloser := (complete.isComplete_of_suffix suffix).reference reference
  exact absurd (closed _ same) (Bool.eq_false_iff.mp noCloser)

theorem ahead_of_dots (room : runs.Room bound limit (token :: rest)) (closed : HeadIn closers bound)
    (noDots : NoDots runs.tokens bound) (dots : isSign (some token) "..." = true) : Ahead bound rest := by
  refine ahead_of_apart room (room.ahead_of_isSign closed dots (by decide)) fun same => ?_
  obtain ⟨-, suffix, -⟩ := room.within _ same
  exact absurd dots (Bool.eq_false_iff.mp (noDots _ same token suffix))

theorem agrees_arrayItem (alike : runs.Alike inner inner') (items : List (ArrayItem Node)) (unpack byRef : Bool)
    (room : runs.Room bound (limit + 1) before) (closed : HeadIn closers bound) (ahead : Ahead bound before)
    (positive : 0 < limit) :
    runs.Agrees (arrayItem inner items unpack byRef) (arrayItem inner' items unpack byRef) before
      fun result after => result.2 = true ∧ runs.Room bound limit after := by
  have stops : HeadIn stopSigns bound := closed.mono (List.subset_append_left _ _)
  refine .andThen (alike.expression 0 room stops) fun found after left => ?_
  cases found with
  | none =>
    obtain ⟨roomAfter, keeps⟩ := left
    exact .skip roomAfter.filled (.pure ⟨rfl, roomAfter.skip (keeps closed ahead) positive⟩)
  | some first =>
    refine .takeSign left.filled (fun arrow => ?_) fun _ => .pure ⟨rfl, left⟩
    cases after with
    | nil => cases arrow
    | cons token rest =>
      have roomValue := left.drop (left.ahead_of_isSign closed arrow (by decide))
      refine agrees_takeSign roomValue closed (by decide) fun byRef after roomValue => ?_
      exact .andThen (Runs.Reads.agrees (alike.expression 0) roomValue stops)
        fun value after room => .pure ⟨rfl, room⟩

theorem agrees_arrayStep (alike : runs.Alike inner inner') (member : close ∈ closers) {inside : Bound}
    (within : Within close bound inside) (noDots : NoDots runs.tokens inside) (items : List (ArrayItem Node))
    (before : List Token) (room : runs.Room inside limit before) :
    runs.Agrees (arrayStep inner close items) (arrayStep inner' close items) before fun result after =>
      if result.2 then runs.Room inside limit after ∧ after.length < before.length
      else runs.Room bound limit after := by
  have closed : HeadIn closers inside := within.headIn.mono (by simpa using member)
  refine .peek (room.filled.imp_right List.length_pos_iff.mpr) ?_
  cases before with
  | nil => exact .pure (room.leave within member)
  | cons token rest =>
    refine .ite (fun _ => .advance room.filled (.pure (room.pass within member))) fun noCloser => ?_
    have ahead : Ahead inside (token :: rest) :=
      room.ahead within.headIn (by simpa [Token.isSignIn] using noCloser)
    refine .ite (fun _ => .advance room.filled (.pure ⟨room.drop ahead, Nat.lt_succ_self _⟩)) fun _ => ?_
    have item {after : List Token} (unpack byRef : Bool) (suffix : after.length ≤ (token :: rest).length)
        (roomAfter : runs.Room inside limit after) (aheadAfter : Ahead inside after) :
        runs.Agrees (arrayItem inner items unpack byRef) (arrayItem inner' items unpack byRef) after
          fun result behind => if result.2 then runs.Room inside limit behind ∧ behind.length < (token :: rest).length
            else runs.Room bound limit behind := by
      have exact_ : runs.Room inside ((token :: rest).length + 1) after :=
        { roomAfter with short := Nat.lt_succ_of_le suffix }
      refine (agrees_arrayItem alike items unpack byRef exact_ closed aheadAfter (Nat.succ_pos _)).mono ?_
      rintro ⟨items, more⟩ behind ⟨rfl, roomBehind⟩
      exact ⟨roomBehind.mono (Nat.le_of_lt room.short), roomBehind.short⟩
    refine .takeSign room.filled (fun dots => ?_) fun _ => .takeSign room.filled (fun reference => ?_) fun _ => ?_
    · exact item true false (Nat.le_succ _) (room.drop ahead) (ahead_of_dots room closed noDots dots)
    · exact item false true (Nat.le_succ _) (room.drop ahead) (ahead_of_reference room closed reference)
    · exact item false false (Nat.le_refl _) room ahead

theorem agrees_array (alike : runs.Alike inner inner') (member : close ∈ closers) (mark : Mark) {inside : Bound}
    (within : Within close bound inside) (noDots : NoDots runs.tokens inside)
    (room : runs.Room inside limit before) :
    runs.Agrees (array runs.rounds inner close mark) (array runs.otherRounds inner' close mark) before
      fun _ after => runs.Room bound limit after := by
  rw [array_eq, array_eq]
  exact .map (.repeatStep (agrees_arrayStep alike member within noDots) room)

theorem isWordIn_eq_false_of_kind {words : List String} (other : token.kind ≠ .name) :
    isWordIn (some token) words = false := by
  simp [isWordIn, other]

theorem kind_of_isWordIn {words : List String} (word : isWordIn (some token) words = true) :
    token.kind = .name := by
  by_cases name : token.kind = .name
  · exact name
  · rw [isWordIn_eq_false_of_kind name] at word
    cases word

/-- What comes behind a token matters only if the token is one of some words. -/
theorem agrees_wordBefore {α : Type} {words : List String} {test : Option Token → Bool}
    {next next' other other' : Parse α} {post : α → List Token → Prop} (room : runs.Room bound limit (token :: rest))
    (head : HeadIn signs bound)
    (named : token.kind = .name → test rest.head? = true → runs.Agrees next next' (token :: rest) post)
    (alone : runs.Agrees other other' (token :: rest) post) :
    runs.Agrees (peek 2 >>= fun second => if isWordIn (some token) words && test second then next else other)
      (peek 2 >>= fun second => if isWordIn (some token) words && test second then next' else other')
      (token :: rest) post := by
  cases word : isWordIn (some token) words with
  | false => exact .peek_any room.filled fun _ _ => .ite_neg (by simp) (by simp) alone
  | true =>
    have name := kind_of_isWordIn word
    refine .peek (room.enough (room.ahead_of_kind head (by simp [name]))) (.ite (fun both => ?_) fun _ => alone)
    exact named name (by simpa [List.head?_eq_getElem?] using both)

theorem isKind_eq_false_of_isSign {text : String} {kind : TokenKind} (sign : isSign (some token) text = true)
    (punctuation : kind ≠ .punctuation) (operator : kind ≠ .operator) : ¬isKind (some token) kind = true := by
  have either : token.kind = .punctuation ∨ token.kind = .operator := by
    have := (Bool.and_eq_true_iff.mp sign).1
    simpa using this
  rintro named
  have named : token.kind = kind := by simpa [isKind] using named
  rcases either with same | same
  · exact punctuation (named.symm.trans same)
  · exact operator (named.symm.trans same)

theorem agrees_closureEnd (alike : runs.Alike inner inner') {head : Bound} (arrow : Bool)
    (parameters : List Node) (mark : Mark) (room : runs.Room head limit before) (stops : HeadIn stopSigns bound)
    (atEnd : HeadIn ["=>", openBrace, ";"] head)
    (outer : ∀ limit after, runs.Room head limit after → runs.Room bound limit after) :
    runs.Agrees (closureEnd runs.rounds inner arrow parameters mark)
      (closureEnd runs.otherRounds inner' arrow parameters mark) before fun _ after => runs.Room bound limit after := by
  refine agrees_takeSign room atEnd (by decide) fun taken before room => ?_
  extract_lets behindBody behindType behindType'
  have atBody (before : List Token) (room : runs.Room bound limit before) :
      runs.Agrees (behindType ()) (behindType' ()) before fun _ after => runs.Room bound limit after := by
    refine .ite (fun _ => agrees_takeSign room stops (by decide) fun taken after room => ?_) fun _ => ?_
    · refine .ite (fun _ => ?_) fun _ => .pure room
      exact .andThen (Runs.Reads.agrees (alike.expression _) room stops) fun body after room => .pure room
    · exact .andThen (agrees_optionalBlock alike room stops (by decide)) fun body after room => .pure room
  refine .ite (fun _ => ?_) fun _ => atBody before (outer _ _ room)
  exact .andThen (Runs.agrees_skipType (List.Subset.refl _) room atEnd) fun _ after room =>
    atBody after (outer _ _ room)

theorem agrees_closure (alike : runs.Alike inner inner') (doc : Option String)
    (room : runs.Room bound (limit + 1) (token :: rest)) (stops : HeadIn stopSigns bound)
    (ahead : Ahead bound (token :: rest)) (ends : token.headEnds? rest.head? = some signs)
    (sub : signs ⊆ ["=>", openBrace, ";"]) :
    runs.Agrees (closure runs.rounds inner doc) (closure runs.otherRounds inner' doc) (token :: rest)
      fun _ after => runs.Room bound limit after := by
  obtain ⟨head, roomHead, atStop, -, outer⟩ := room.head stops ahead ends
  have atEnd := atStop.mono sub
  unfold closure
  refine .advance room.filled ?_
  extract_lets line arrow behindParameters behindParameters'
  refine agrees_takeSign roomHead atEnd (by decide) fun _ before roomHead => ?_
  have atParameters (parameters : List Node) (before : List Token) (roomHead : runs.Room head limit before) :
      runs.Agrees (behindParameters parameters) (behindParameters' parameters) before
        fun _ after => runs.Room bound limit after := by
    have ends (before : List Token) (roomHead : runs.Room head limit before) :=
      agrees_closureEnd alike arrow parameters { line, doc } roomHead stops atEnd outer
    refine .peek (roomHead.filled.imp_right List.length_pos_iff.mpr) ?_
    cases before with
    | nil =>
      exact .peek_any roomHead.filled fun _ _ =>
        .ite_neg (by simp [isWordIn]) (by simp [isWordIn]) (ends _ roomHead)
    | cons token rest =>
      refine agrees_wordBefore roomHead atEnd (fun name paren => ?_) (ends _ roomHead)
      have roomParen := roomHead.drop (roomHead.ahead_of_kind atEnd (by simp [name]))
      cases rest with
      | nil => cases paren
      | cons second rest =>
        have aheadParen := roomParen.ahead_of_isSign atEnd paren (by decide)
        refine .advance roomHead.filled (.advance roomParen.filled ?_)
        exact .andThen (agrees_enter (list_closes alike (by decide) _) roomParen.exact_ aheadParen
          (Token.closing?_eq_paren.mpr paren)) fun _ after room => ends after (room.mono (Nat.le_of_lt roomParen.short))
  exact agrees_bracketed alike roomHead atEnd (by decide) Token.closing?_eq_paren.mpr atParameters
    (.andThen (.pure roomHead) fun parameters after room => atParameters parameters after room)

theorem agrees_computedClassStep (stops : HeadIn stopSigns bound) (name : String) (before : List Token)
    (room : runs.Room bound limit before) :
    runs.Agrees (computedClassStep name) (computedClassStep name) before fun result after =>
      if result.2 then runs.Room bound limit after ∧ after.length < before.length
      else runs.Room bound limit after := by
  refine .peek (room.filled.imp_right List.length_pos_iff.mpr) ?_
  cases before with
  | nil => exact .peek_any room.filled fun _ _ => .ite_neg (by simp [isSign]) (by simp [isSign]) (.pure room)
  | cons token rest =>
    cases access : isSign (some token) "->" || isSign (some token) "::" with
    | false =>
      have noAccess (second : Option Token) : ¬((isSign (some token) "->" || isSign (some token) "::") &&
          (isKind second .name || isKind second .variable)) = true := by simp [access]
      exact .peek_any room.filled fun _ _ => .ite_neg (noAccess _) (noAccess _) (.pure room)
    | true =>
      have ahead : Ahead bound (token :: rest) := by
        rcases Bool.or_eq_true_iff.mp access with access | access
        · exact room.ahead_of_isSign stops access (by decide)
        · exact room.ahead_of_isSign stops access (by decide)
      have roomRest := room.drop ahead
      refine .peek (room.enough ahead) (.ite (fun named => ?_) fun _ => .pure room)
      cases rest with
      | nil => simp [isKind] at named
      | cons member rest =>
        have kind : member.kind = .name ∨ member.kind = .variable := by
          simpa [isKind, access] using named
        have aheadRest := roomRest.ahead_of_kind stops (by rcases kind with kind | kind <;> simp [kind])
        exact .advance room.filled (.advance roomRest.filled
          (.pure ⟨roomRest.drop aheadRest, Nat.lt_succ_of_lt (Nat.lt_succ_self _)⟩))

theorem agrees_computedClass (name : String) (room : runs.Room bound limit before) (stops : HeadIn stopSigns bound) :
    runs.Agrees (computedClass runs.rounds name) (computedClass runs.otherRounds name) before
      fun _ after => runs.Room bound limit after := by
  rw [computedClass_eq, computedClass_eq]
  exact .repeatStep (agrees_computedClassStep stops) room

/-- The class behind the word that creates it, if it has no name. -/
theorem agrees_anonymousClass {α : Type} {made : List Node → List Node → α} (alike : runs.Alike inner inner')
    (room : runs.Room bound (limit + 1) (token :: rest)) (stops : HeadIn stopSigns bound)
    (name : token.kind = .name) (word : lowercase token.text = "new")
    (anonymous : isWordIn rest.head? ["class"] = true) :
    runs.Agrees
      (advance >>= fun _ => optionalArguments runs.rounds inner >>= fun args =>
        skipType runs.rounds [openBrace, ";"] >>= fun _ => optionalBlock inner >>= fun body =>
        pure (made args body))
      (advance >>= fun _ => optionalArguments runs.otherRounds inner' >>= fun args =>
        skipType runs.otherRounds [openBrace, ";"] >>= fun _ => optionalBlock inner' >>= fun body =>
        pure (made args body))
      rest fun _ after => runs.Room bound limit after := by
  obtain ⟨head, roomHead, atStop, -, outer⟩ :=
    room.head stops (room.ahead_of_kind stops (by simp [name])) (Token.headEnds?_of_new name word anonymous)
  have isName : isKind rest.head? .name = true := by
    cases rest with
    | nil => cases anonymous
    | cons second rest => simpa [isKind] using kind_of_isWordIn anonymous
  refine .advance roomHead.filled ?_
  refine .andThen (agrees_optionalArguments alike (room_tail_of_isKind roomHead atStop (by decide) isName)
    atStop (by decide)) fun args after roomHead => ?_
  refine .andThen (Runs.agrees_skipType (List.Subset.refl _) roomHead atStop) fun _ after roomHead => ?_
  exact .andThen (agrees_optionalBlock alike (outer _ _ roomHead) stops (by decide)) fun body after room => .pure room

theorem agrees_creation (alike : runs.Alike inner inner') (doc : Option String)
    (room : runs.Room bound (limit + 1) (token :: rest)) (stops : HeadIn stopSigns bound)
    (name : token.kind = .name) (word : lowercase token.text = "new") :
    runs.Agrees (creation runs.rounds inner doc) (creation runs.otherRounds inner' doc) (token :: rest)
      fun _ after => runs.Room bound limit after := by
  have roomRest := room.tail (room.ahead_of_kind stops (by simp [name]))
  unfold creation
  refine .advance room.filled ?_
  extract_lets line behindClass behindClass'
  refine .peek (roomRest.filled.imp_right List.length_pos_iff.mpr) (.ite (fun anonymous => ?_) fun _ => ?_)
  · exact agrees_anonymousClass alike room stops name word (by rwa [List.head?_eq_getElem?])
  have atClass (className : String) (before : List Token) (room : runs.Room bound limit before) :
      runs.Agrees (behindClass className) (behindClass' className) before
        fun _ after => runs.Room bound limit after :=
    .andThen (agrees_optionalArguments alike room stops (by decide)) fun args after room => .pure room
  refine .takeSign roomRest.filled (fun paren => ?_) fun _ => ?_
  · cases rest with
    | nil => cases paren
    | cons second rest =>
      have aheadParen := roomRest.ahead_of_isSign stops paren (by decide)
      refine .ite (fun named => absurd named (isKind_eq_false_of_isSign paren (by decide) (by decide))) fun _ =>
        .ite (fun named => absurd named (isKind_eq_false_of_isSign paren (by decide) (by decide))) fun _ => ?_
      refine .ite (fun _ => ?_) fun no => absurd rfl no
      refine .andThen (agrees_enter (list_closes alike (by decide) _) roomRest.exact_ aheadParen
        (Token.closing?_eq_paren.mpr paren)) fun _ after room => ?_
      have room := room.mono (Nat.le_of_lt roomRest.short)
      exact .andThen (.pure room) fun name after room => atClass name after room
  · refine .ite (fun named => ?_) fun _ => .ite (fun named => ?_) fun _ => .ite (fun no => nomatch no) fun _ => ?_
    · have isName : isKind rest.head? .name = true := by rwa [List.head?_eq_getElem?]
      have room := room_tail_of_isKind roomRest stops (by decide) isName
      exact .advance roomRest.filled (.andThen (.pure room) fun name after room => atClass name after room)
    · have isVariable : isKind rest.head? .variable = true := by rwa [List.head?_eq_getElem?]
      have room := room_tail_of_isKind roomRest stops (by decide) isVariable
      exact .advance roomRest.filled (.andThen (agrees_computedClass _ room stops)
        fun name after room => atClass name after room)
    · exact .andThen (.pure roomRest) fun name after room => atClass name after room

/-- A call, or something without arguments. -/
theorem agrees_call {α : Type} {next next' : List Node → Parse α} {other other' : Parse α}
    {post : α → List Token → Prop} (alike : runs.Alike inner inner') (room : runs.Room bound limit before)
    (stops : HeadIn stopSigns bound)
    (called : ∀ args after, runs.Room bound limit after → runs.Agrees (next args) (next' args) after post)
    (alone : runs.Agrees other other' before post) :
    runs.Agrees (peek >>= fun token => if isSign token "(" then arguments runs.rounds inner >>= next else other)
      (peek >>= fun token => if isSign token "(" then arguments runs.otherRounds inner' >>= next' else other')
      before post := by
  refine .peek (room.filled.imp_right List.length_pos_iff.mpr) (.ite (fun paren => ?_) fun _ => alone)
  cases before with
  | nil => cases paren
  | cons token rest =>
    have ahead := room.ahead_of_isSign stops paren (by decide)
    exact .andThen (agrees_arguments alike room.exact_ ahead paren) fun args after roomAfter =>
      called args after (roomAfter.mono (Nat.le_of_lt room.short))

theorem agrees_staticAccess (alike : runs.Alike inner inner') (className : String) (mark : Mark)
    (room : runs.Room bound (limit + 1) (token :: rest)) (stops : HeadIn stopSigns bound)
    (ahead : Ahead bound (token :: rest)) :
    runs.Agrees (staticAccess runs.rounds inner className mark)
      (staticAccess runs.otherRounds inner' className mark) (token :: rest)
      fun _ after => runs.Room bound limit after := by
  have roomRest := room.tail ahead
  unfold staticAccess
  refine .advance room.filled (.peek (roomRest.filled.imp_right List.length_pos_iff.mpr) ?_)
  cases rest with
  | nil => exact .pure roomRest
  | cons member rest =>
    rw [List.tail_cons, List.getElem?_cons_zero]
    dsimp only
    have inside (other : member.kind ≠ .punctuation ∧ member.kind ≠ .operator) : runs.Room bound limit rest :=
      roomRest.drop (roomRest.ahead_of_kind stops other)
    match kind : member.kind with
    | .name =>
      have roomMember := inside (by simp [kind])
      exact .advance roomRest.filled
        (agrees_call alike roomMember stops (fun _ _ room => .pure room) (.pure roomMember))
    | .variable => exact .advance roomRest.filled (.pure (inside (by simp [kind])))
    | .inlineHtml | .openTag | .closeTag | .docComment | .string | .number | .operator | .punctuation | .unknown =>
      exact agrees_bracketed alike roomRest stops (by decide) Token.closing?_eq_brace.mpr
        (fun _ _ room => .pure room) (.pure roomRest)

theorem agrees_member (alike : runs.Alike inner inner') (node : Node)
    (room : runs.Room bound (limit + 1) (token :: rest)) (stops : HeadIn stopSigns bound)
    (ahead : Ahead bound (token :: rest)) :
    runs.Agrees (member runs.rounds inner node) (member runs.otherRounds inner' node) (token :: rest)
      fun _ after => runs.Room bound limit after := by
  have roomRest := room.tail ahead
  unfold member
  refine .advance room.filled (.peek (roomRest.filled.imp_right List.length_pos_iff.mpr) ?_)
  cases rest with
  | nil => exact .pure roomRest
  | cons member rest =>
    rw [List.tail_cons, List.getElem?_cons_zero]
    dsimp -zeta only
    extract_lets behindName behindName'
    have inside (other : member.kind ≠ .punctuation ∧ member.kind ≠ .operator) : runs.Room bound limit rest :=
      roomRest.drop (roomRest.ahead_of_kind stops other)
    have atName (name? : Option String) (before : List Token) (room : runs.Room bound limit before) :
        runs.Agrees (behindName name?) (behindName' name?) before fun _ after => runs.Room bound limit after := by
      cases name? with
      | none => exact .pure room
      | some name => exact agrees_call alike room stops (fun _ _ room => .pure room) (.pure room)
    match kind : member.kind with
    | .name =>
      exact .advance roomRest.filled
        (.andThen (.pure (inside (by simp [kind]))) fun name? after room => atName name? after room)
    | .variable =>
      exact .advance roomRest.filled
        (.andThen (.pure (inside (by simp [kind]))) fun name? after room => atName name? after room)
    | .inlineHtml | .openTag | .closeTag | .docComment | .string | .number | .operator | .punctuation | .unknown =>
      exact agrees_bracketed alike roomRest stops (by decide) Token.closing?_eq_brace.mpr
        (fun _ _ room => .andThen (.pure room) fun name? after room => atName name? after room)
        (.andThen (.pure roomRest) fun name? after room => atName name? after room)

theorem agrees_staticMember (alike : runs.Alike inner inner') (node : Node)
    (room : runs.Room bound (limit + 1) (token :: rest)) (stops : HeadIn stopSigns bound)
    (ahead : Ahead bound (token :: rest)) :
    runs.Agrees (staticMember runs.rounds inner node) (staticMember runs.otherRounds inner' node) (token :: rest)
      fun _ after => runs.Room bound limit after := by
  have roomRest := room.tail ahead
  unfold staticMember
  refine .advance room.filled (.peek (roomRest.filled.imp_right List.length_pos_iff.mpr) ?_)
  cases rest with
  | nil => exact .pure roomRest
  | cons member rest =>
    rw [List.tail_cons, List.getElem?_cons_zero]
    dsimp only
    have inside (other : member.kind ≠ .punctuation ∧ member.kind ≠ .operator) : runs.Room bound limit rest :=
      roomRest.drop (roomRest.ahead_of_kind stops other)
    match kind : member.kind with
    | .name =>
      have roomMember := inside (by simp [kind])
      exact .advance roomRest.filled
        (agrees_call alike roomMember stops (fun _ _ room => .pure room) (.pure roomMember))
    | .variable => exact .advance roomRest.filled (.pure (inside (by simp [kind])))
    | .inlineHtml | .openTag | .closeTag | .docComment | .string | .number | .operator | .punctuation | .unknown =>
      exact .pure roomRest

theorem agrees_postfixStep (alike : runs.Alike inner inner') (stops : HeadIn stopSigns bound) (node : Node)
    (before : List Token) (room : runs.Room bound limit before) :
    runs.Agrees (postfixStep runs.rounds inner node) (postfixStep runs.otherRounds inner' node) before
      fun result after =>
        if result.2 then runs.Room bound limit after ∧ after.length < before.length
        else runs.Room bound limit after := by
  refine .peek (room.filled.imp_right List.length_pos_iff.mpr) ?_
  cases before with
  | nil => exact .pure room
  | cons token rest =>
    have further {next next' : Parse (Node × Bool)}
        (agrees : runs.Agrees next next' (token :: rest) fun _ after => runs.Room bound (token :: rest).length after) :
        runs.Agrees next next' (token :: rest) fun result after =>
          if result.2 then runs.Room bound limit after ∧ after.length < (token :: rest).length
          else runs.Room bound limit after := by
      refine agrees.mono fun result after roomAfter => ?_
      have room := roomAfter.mono (Nat.le_of_lt room.short)
      split
      · exact ⟨room, roomAfter.short⟩
      · exact room
    have sign {text : String} (here : isSign (some token) text = true) (absent : text ∉ stopSigns) :
        Ahead bound (token :: rest) := room.ahead_of_isSign stops here absent
    refine .ite (fun arrow => further ?_) fun _ => .ite (fun colons => further ?_) fun _ =>
      .ite (fun bracket => further ?_) fun _ => .ite (fun paren => further ?_) fun _ =>
      .ite (fun step => further ?_) fun _ => .pure room
    · have ahead : Ahead bound (token :: rest) := by
        rcases Bool.or_eq_true_iff.mp arrow with arrow | arrow <;> exact sign arrow (by decide)
      exact agrees_member alike node room.exact_ stops ahead
    · exact agrees_staticMember alike node room.exact_ stops (sign colons (by decide))
    · exact .advance room.filled (.andThen (agrees_enter (list_closes alike (by decide) _) room.exact_
        (sign bracket (by decide)) (Token.closing?_eq_bracket.mpr (by simp [bracket]))) fun _ after room => .pure room)
    · exact .andThen (agrees_arguments alike room.exact_ (sign paren (by decide)) paren) fun _ after room => .pure room
    · have ahead : Ahead bound (token :: rest) := by
        rcases Bool.or_eq_true_iff.mp step with step | step <;> exact sign step (by decide)
      exact .advance room.filled (.pure (room.exact_.tail ahead))

theorem agrees_postfixes (alike : runs.Alike inner inner') (node : Node)
    (room : runs.Room bound limit before) (stops : HeadIn stopSigns bound) :
    runs.Agrees (postfixes runs.rounds inner node) (postfixes runs.otherRounds inner' node) before
      fun _ after => runs.Room bound limit after := by
  rw [postfixes_eq, postfixes_eq]
  exact .repeatStep (agrees_postfixStep alike stops) room

theorem agrees_named (alike : runs.Alike inner inner') (mark : Mark)
    (room : runs.Room bound (limit + 1) (token :: rest)) (stops : HeadIn stopSigns bound)
    (name : token.kind = .name) :
    runs.Agrees (named runs.rounds inner token rest.head? mark) (named runs.otherRounds inner' token rest.head? mark)
      (token :: rest) fun _ after => runs.Room bound limit after := by
  have roomRest := room.tail (room.ahead_of_kind stops (by simp [name]))
  unfold named
  refine .advance room.filled (.ite (fun paren => ?_) fun _ => .ite (fun colons => ?_) fun _ => .pure roomRest)
  · cases rest with
    | nil => cases paren
    | cons second rest =>
      have ahead := roomRest.ahead_of_isSign stops paren (by decide)
      exact .andThen (agrees_arguments alike roomRest.exact_ ahead paren) fun _ after room =>
        .pure (room.mono (Nat.le_of_lt roomRest.short))
  · cases rest with
    | nil => cases colons
    | cons second rest =>
      have ahead := roomRest.ahead_of_isSign stops colons (by decide)
      exact (agrees_staticAccess alike token.text mark roomRest.exact_ stops ahead).mono fun _ after room =>
        room.mono (Nat.le_of_lt roomRest.short)

end Parse

end FormHarvest
