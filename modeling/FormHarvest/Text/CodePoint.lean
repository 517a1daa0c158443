namespace FormHarvest

/-- The character of a code point in a text. Surrogates are code points but no characters: alone, they
stand in a text as the replacement character. -/
def characterOf (n : Nat) : Char := if n.isValidChar then Char.ofNat n else '\uFFFD'

@[simp] theorem characterOf_toNat (c : Char) : characterOf c.toNat = c := by
  have hvalid : c.toNat.isValidChar := c.valid
  rw [characterOf, if_pos hvalid, Char.ofNat_toNat]

@[simp] theorem map_characterOf_toNat (text : List Char) : (text.map Char.toNat).map characterOf = text := by
  simp [Function.comp_def]

end FormHarvest
