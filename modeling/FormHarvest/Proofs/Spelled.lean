import FormHarvest.Proofs.ParseSteps
import FormHarvest.Proofs.TextOrder
import Mathlib.Data.List.Forall2

namespace FormHarvest

/-- Whether a token writes a sign. A number may have minus signs before it, perhaps on lines above. -/
def Sign.IsWritten : Sign → Token → Prop
  | text value interpolated line, token =>
    token.kind = .string ∧ token.text = value ∧ token.interpolated = interpolated ∧ line = token.line
  | number raw line, token =>
    token.kind = .number ∧ ∃ minuses : Nat,
      raw = String.ofList (List.replicate minuses '-') ++ token.text ∧
        (minuses = 0 → line = token.line)
  | call name line, token =>
    (token.kind = .name ∧ name = token.text ∨ token.kind = .variable ∧ name = "$" ++ token.text ∨
      isSign (some token) openBrace = true ∧ name = computedMember) ∧ line = token.line

/-- Between the tokens at a start and those that are left signs are written, each by a token of its
own and in their order. -/
inductive Spelled (start : List Token) : List Sign → List Token → Prop
  | nothing : Spelled start [] start
  | skip {signs : List Sign} {token : Token} {rest : List Token} :
    Spelled start signs (token :: rest) → Spelled start signs rest
  | sign {signs : List Sign} {sign : Sign} {token : Token} {rest : List Token} :
    Spelled start signs (token :: rest) → sign.IsWritten token → Spelled start (signs ++ [sign]) rest

namespace Spelled

variable {start before : List Token} {signs : List Sign}

theorem tail (spelled : Spelled start signs before) : Spelled start signs before.tail := by
  cases before with
  | nil => exact spelled
  | cons token rest => exact spelled.skip

theorem drop_last {all : List Sign} (spelled : Spelled start all before) :
    ∀ {signs last}, all = signs ++ last → Spelled start signs before := by
  induction spelled with
  | nothing =>
    intro signs last parts
    obtain ⟨rfl, -⟩ := List.append_eq_nil_iff.mp parts.symm
    exact .nothing
  | skip _ ih => exact fun parts => (ih parts).skip
  | @sign written sign token rest spelled isWritten ih =>
    intro signs last parts
    rcases List.eq_nil_or_concat last with rfl | ⟨front, other, rfl⟩
    · rw [List.append_nil] at parts
      exact parts ▸ spelled.sign isWritten
    · rw [List.concat_eq_append, ← List.append_assoc] at parts
      exact (ih (List.append_inj_left' parts rfl)).skip

theorem drop {more : List Sign} (spelled : Spelled start (signs ++ more) before) :
    Spelled start signs before :=
  spelled.drop_last rfl

/-- The last sign may be read in another way if its token can be. -/
theorem reread {all : List Sign} (spelled : Spelled start all before) :
    ∀ {signs sign other}, all = signs ++ [sign] →
      (∀ token, sign.IsWritten token → Sign.IsWritten other token) →
        Spelled start (signs ++ [other]) before := by
  induction spelled with
  | nothing => exact fun parts => absurd parts.symm (by simp)
  | skip _ ih => exact fun parts same => (ih parts same).skip
  | sign spelled isWritten ih =>
    intro signs sign other parts same
    obtain ⟨rfl, last⟩ := List.append_inj' parts rfl
    cases last
    exact spelled.sign (same _ isWritten)

theorem exists_sublist (spelled : Spelled start signs before) :
    ∃ taken heads, start = taken ++ before ∧ heads.Sublist taken ∧
      List.Forall₂ Sign.IsWritten signs heads := by
  induction spelled with
  | nothing => exact ⟨[], [], rfl, .slnil, .nil⟩
  | @skip signs token rest _ ih =>
    obtain ⟨taken, heads, parts, sublist, written⟩ := ih
    exact ⟨taken ++ [token], heads, by rw [parts, List.append_assoc]; rfl,
      sublist.trans (List.sublist_append_left _ _), written⟩
  | @sign signs sign token rest _ isWritten ih =>
    obtain ⟨taken, heads, parts, sublist, written⟩ := ih
    exact ⟨taken ++ [token], heads ++ [token], by rw [parts, List.append_assoc]; rfl,
      sublist.append (.refl _), List.rel_append written (.cons isWritten .nil)⟩

end Spelled

/-- A parser spells the signs of its result behind those that were spelled before it. -/
def Parse.Spells {α : Type} (parse : Parse α) (signsOf : α → List Sign) : Prop :=
  ∀ {start done before}, Spelled start done before →
    parse.Yields before fun a after => Spelled start (done ++ signsOf a) after

/-- The parsers for what stands inside brackets spell the signs of their trees. -/
structure Inner.Spells (inner : Inner) : Prop where
  statements (close : Option String) : (inner.statements close).Spells signs
  expression (least : Nat) : (inner.expression least).Spells fun node => signs node.toList
  unary : inner.unary.Spells fun node => signs node.toList
  primary : inner.primary.Spells fun node => signs node.toList

namespace Spelled

variable {start before : List Token} {signs : List Sign}

theorem takeSign (spelled : Spelled start signs before) (text : String) :
    (Parse.takeSign text).Yields before fun _ after => Spelled start signs after :=
  .takeSign (fun _ => spelled.tail) spelled

theorem advance (spelled : Spelled start signs before) :
    Parse.advance.Yields before fun _ after => Spelled start signs after :=
  .advance spelled.tail

end Spelled

end FormHarvest
