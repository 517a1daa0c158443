import FormHarvest.Encoding.Utf8
import Mathlib

namespace FormHarvest

theorem toList_loop_eq (bytes : ByteArray) (index : Nat) (read : List UInt8) :
    ByteArray.toList.loop bytes index read = read.reverse ++ bytes.data.toList.drop index := by
  fun_induction ByteArray.toList.loop bytes index read with
  | case1 index read more ih =>
    have inside : index < bytes.data.toList.length := by simpa using more
    rw [ih, List.drop_eq_getElem_cons inside]
    simp [ByteArray.get!, more]
  | case2 index read done =>
    rw [List.drop_eq_nil_of_le (by simpa using Nat.le_of_not_lt done), List.append_nil]

theorem toList_toUTF8 (text : String) : text.toUTF8.toList = text.toList.flatMap String.utf8EncodeChar := by
  rw [String.toUTF8, ← String.utf8Encode_toList, ByteArray.toList, toList_loop_eq, List.utf8Encode,
    List.toList_data_toByteArray]
  rfl

namespace Utf8Step

section Bytes

variable {lead second : Nat}

theorem sizeOf?_ofNat (small : lead < 256) :
    sizeOf? (UInt8.ofNat lead) =
      if lead ≤ 0x7F then some 1
      else if 0xC2 ≤ lead && lead ≤ 0xDF then some 2
      else if 0xE0 ≤ lead && lead ≤ 0xEF then some 3
      else if 0xF0 ≤ lead && lead ≤ 0xF4 then some 4
      else none := by
  simp only [sizeOf?, UInt8.le_iff_toNat_le, UInt8.toNat_ofNat_of_lt' small, UInt8.reduceToNat]

theorem continues_ofNat (small : second < 256) : continues (UInt8.ofNat second) = (0x80 ≤ second && second ≤ 0xBF) := by
  simp only [continues, UInt8.le_iff_toNat_le, UInt8.toNat_ofNat_of_lt' small, UInt8.reduceToNat]

theorem continues_ofNat_tail (n : Nat) : continues (UInt8.ofNat (n % 64 + 128)) = true := by
  rw [continues_ofNat (by omega), Bool.and_eq_true, decide_eq_true_eq, decide_eq_true_eq]
  omega

theorem mayFollow_ofNat (small : lead < 256) (small' : second < 256) :
    mayFollow (UInt8.ofNat lead) (UInt8.ofNat second) =
      if lead = 0xE0 then 0xA0 ≤ second && second ≤ 0xBF
      else if lead = 0xED then 0x80 ≤ second && second ≤ 0x9F
      else if lead = 0xF0 then 0x90 ≤ second && second ≤ 0xBF
      else if lead = 0xF4 then 0x80 ≤ second && second ≤ 0x8F
      else 0x80 ≤ second && second ≤ 0xBF := by
  simp only [mayFollow, continues, beq_iff_eq, UInt8.le_iff_toNat_le, ← UInt8.toNat_inj,
    UInt8.toNat_ofNat_of_lt' small, UInt8.toNat_ofNat_of_lt' small', UInt8.reduceToNat]

end Bytes

/-- A character takes its leading byte and the bytes that this one needs, if they may follow. -/
theorem ofBytes_of_size {lead : UInt8} {rest : List UInt8} (size : sizeOf? lead = some (rest.length + 1))
    (follow : ∀ second more, rest = second :: more →
      mayFollow lead second = true ∧ ∀ byte ∈ more, continues byte = true)
    (behind : List UInt8) :
    ofBytes lead (rest ++ behind) = char (Char.ofNat (codePoint lead rest)) (rest.length + 1) := by
  have good : goodAfter lead (rest.length + 1) (rest ++ behind) = rest.length := by
    cases rest with
    | nil => cases behind <;> simp [goodAfter]
    | cons second more =>
      obtain ⟨first, others⟩ := follow second more rfl
      simp [goodAfter, first, List.takeWhile_eq_self_iff.mpr others, Nat.add_comm 1]
  simp [ofBytes, size, good]

/-- The bytes of a character are read as that character, whatever comes behind them. -/
theorem ofBytes_utf8EncodeChar (c : Char) (behind : List UInt8) :
    ∃ lead rest, String.utf8EncodeChar c = lead :: rest ∧
      ofBytes lead (rest ++ behind) = char c (rest.length + 1) := by
  have valid : c.val.toNat < 0xD800 ∨ 0xDFFF < c.val.toNat ∧ c.val.toNat < 0x110000 := c.valid
  have reads {lead : UInt8} {rest : List UInt8} (size : sizeOf? lead = some (rest.length + 1))
      (follow : ∀ second more, rest = second :: more →
        mayFollow lead second = true ∧ ∀ byte ∈ more, continues byte = true)
      (code : codePoint lead rest = c.val.toNat) : ∃ first others, lead :: rest = first :: others ∧
        ofBytes first (others ++ behind) = char c (others.length + 1) := by
    refine ⟨lead, rest, rfl, ?_⟩
    rw [ofBytes_of_size size follow, code]
    exact congrArg (char · _) (Char.ofNat_toNat c)
  unfold String.utf8EncodeChar
  generalize c.val.toNat = n at valid reads
  dsimp only
  -- from here on a character is a number, and its size is what the number needs
  split_ifs with one two three <;> apply reads
  · rw [sizeOf?_ofNat (by omega), if_pos one]
    rfl
  · exact nofun
  · simp [codePoint]
    omega
  · rw [sizeOf?_ofNat (by omega)]
    grind
  · rintro second more ⟨⟩
    rw [mayFollow_ofNat (by omega) (by omega)]
    grind
  · simp [codePoint]
    omega
  · rw [sizeOf?_ofNat (by omega)]
    grind
  · rintro second more ⟨⟩
    rw [mayFollow_ofNat (by omega) (by omega)]
    grind [continues_ofNat_tail]
  · simp [codePoint]
    omega
  · rw [sizeOf?_ofNat (by omega)]
    grind
  · rintro second more ⟨⟩
    rw [mayFollow_ofNat (by omega) (by omega)]
    grind [continues_ofNat_tail]
  · simp [codePoint]
    omega

end Utf8Step

theorem decodeUtf8From_flatMap (text : List Char) (position : Nat) :
    decodeUtf8From position (text.flatMap String.utf8EncodeChar) = .ok text := by
  induction text generalizing position with
  | nil => rw [List.flatMap_nil, decodeUtf8From]
  | cons c text ih =>
    obtain ⟨lead, rest, bytes, step⟩ := Utf8Step.ofBytes_utf8EncodeChar c (text.flatMap String.utf8EncodeChar)
    rw [List.flatMap_cons, bytes, List.cons_append, decodeUtf8From]
    simp only [step, Nat.add_sub_cancel, List.drop_left, ih]
    rfl

/-- A text is read as it was written, whatever its characters are. -/
theorem decodeUtf8_toUTF8 (text : String) : decodeUtf8 text.toUTF8.toList = .ok text.toList := by
  rw [toList_toUTF8]
  exact decodeUtf8From_flatMap text.toList 0

end FormHarvest
