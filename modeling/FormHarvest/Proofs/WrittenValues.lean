import FormHarvest.Settings.Store
import Mathlib.Tactic.SplitIfs

namespace FormHarvest

/-- A text without carriage returns has no other line ends than line feeds. -/
theorem plainLineEnds_of_notMem {text : List Char} (absent : '\r' ∉ text) : plainLineEnds text = text := by
  fun_induction plainLineEnds text with
  | case1 rest ih => simp at absent
  | case2 rest notBoth ih => simp at absent
  | case3 c rest notReturn noReturn ih => rw [ih (List.not_mem_of_not_mem_cons absent)]
  | case4 => rfl

theorem return_notMem_toDigits (n : Nat) : '\r' ∉ Nat.toDigits 10 n := fun member =>
  absurd (Nat.isDigit_of_mem_toDigits (by decide) (by decide) member) (by decide)

theorem return_notMem_repr (n : Nat) : '\r' ∉ n.repr.toList := by
  rw [Nat.repr_eq_ofList_toDigits, String.toList_ofList]
  exact return_notMem_toDigits n

theorem return_notMem_toString (n : Int) : '\r' ∉ (toString n).toList := by
  cases n with
  | ofNat n => exact return_notMem_repr n
  | negSucc n =>
    change '\r' ∉ ("-" ++ (n + 1).repr).toList
    simp [return_notMem_toDigits]

theorem ShortDecimal.return_notMem_text (layout : DecimalLayout) (decimal : ShortDecimal) :
    '\r' ∉ (decimal.text layout).toList := by
  have digits := return_notMem_toDigits decimal.digits
  have taken (count : Nat) : '\r' ∉ (Nat.toDigits 10 decimal.digits).take count :=
    fun member => digits (List.mem_of_mem_take member)
  have dropped (count : Nat) : '\r' ∉ (Nat.toDigits 10 decimal.digits).drop count :=
    fun member => digits (List.mem_of_mem_drop member)
  have behind : '\r' ∉ (Nat.toDigits 10 decimal.digits).tail := fun member => digits (List.mem_of_mem_tail member)
  unfold text
  dsimp only
  split_ifs <;> simp [taken, dropped, behind, digits, return_notMem_toDigits]

theorem Double.return_notMem_textWith {infinityWord nanWord : String} (infinity : '\r' ∉ infinityWord.toList)
    (nan : '\r' ∉ nanWord.toList) (x : Double) : '\r' ∉ (x.textWith infinityWord nanWord).toList := by
  unfold textWith
  dsimp only
  split_ifs <;> simp [infinity, nan, ShortDecimal.return_notMem_text]

namespace Json

theorem return_notMem_hexDigits {n : Nat} (small : n < 32) : '\r' ∉ hexDigits 4 n := by
  revert n
  decide

theorem return_notMem_escapedChar (c : Char) : '\r' ∉ escapedChar c := by
  unfold escapedChar
  split_ifs with quote backslash lineFeed carriageReturn tab formFeed backspace control
  iterate 7 · decide
  · rw [List.mem_cons, List.mem_cons, not_or, not_or]
    exact ⟨by decide, by decide, return_notMem_hexDigits control⟩
  · rw [List.mem_singleton]
    rintro rfl
    exact carriageReturn rfl

theorem return_notMem_writtenText (text : String) : '\r' ∉ writtenText text := by
  simp [writtenText, return_notMem_escapedChar]

theorem return_notMem_gap (layout : Layout) (depth : Nat) : '\r' ∉ layout.gap depth := by
  cases layout <;> simp [Layout.gap]

theorem return_notMem_colon (layout : Layout) : '\r' ∉ layout.colon := by
  cases layout <;> simp [Layout.colon]

mutual

/-- A written value has no carriage return. -/
theorem return_notMem_writtenAt (layout : Layout) (depth : Nat) (json : Json) : '\r' ∉ writtenAt layout depth json := by
  match json with
  | null => simp [writtenAt]
  | bool true => simp [writtenAt]
  | bool false => simp [writtenAt]
  | int value => exact return_notMem_toString value
  | float value => exact Double.return_notMem_textWith (by decide) (by decide) value
  | string value => exact return_notMem_writtenText value
  | list [] => simp [writtenAt]
  | list (first :: rest) =>
    simp [writtenAt, return_notMem_gap, return_notMem_writtenAt layout (depth + 1) first,
      return_notMem_writtenItems layout (depth + 1) rest]
  | object [] => simp [writtenAt]
  | object ((name, value) :: rest) =>
    simp [writtenAt, return_notMem_gap, return_notMem_colon, return_notMem_writtenText,
      return_notMem_writtenAt layout (depth + 1) value, return_notMem_writtenFields layout (depth + 1) rest]

theorem return_notMem_writtenItems (layout : Layout) (depth : Nat) (items : List Json) :
    '\r' ∉ writtenItems layout depth items := by
  match items with
  | [] => exact List.not_mem_nil
  | item :: rest =>
    simp [writtenItems, return_notMem_gap, return_notMem_writtenAt layout depth item,
      return_notMem_writtenItems layout depth rest]

theorem return_notMem_writtenFields (layout : Layout) (depth : Nat) (fields : List (String × Json)) :
    '\r' ∉ writtenFields layout depth fields := by
  match fields with
  | [] => exact List.not_mem_nil
  | (name, value) :: rest =>
    simp [writtenFields, return_notMem_gap, return_notMem_colon, return_notMem_writtenText,
      return_notMem_writtenAt layout depth value, return_notMem_writtenFields layout depth rest]

end

/-- The line ends of a written value are line feeds alone, whatever texts it holds. -/
theorem plainLineEnds_write (layout : Layout) (json : Json) :
    plainLineEnds (json.write layout).toList = (json.write layout).toList := by
  rw [write, String.toList_ofList]
  exact plainLineEnds_of_notMem (return_notMem_writtenAt layout 0 json)

end Json

end FormHarvest
