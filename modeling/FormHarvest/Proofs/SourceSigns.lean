import FormHarvest.Proofs.SpelledParsers

namespace FormHarvest

/-- Whether a token ends a statement, as a closing tag also does. -/
def Token.endsStatement (token : Token) : Bool := token.kind == .punctuation && token.text == ";"

theorem Sign.IsWritten.not_endsStatement {sign : Sign} {token : Token}
    (written : sign.IsWritten token) : (!token.endsStatement) = true := by
  cases ends : token.endsStatement with
  | false => rfl
  | true =>
    obtain ⟨kind, text⟩ : token.kind = .punctuation ∧ token.text = ";" := by
      simpa [Token.endsStatement] using ends
    cases sign <;> simp only [IsWritten, kind, reduceCtorEq, false_and, false_or] at written
    obtain ⟨⟨brace, -⟩, -⟩ := written
    simp [isSign, kind, text, openBrace] at brace

/-- Apart from ends of statements the parser reads tokens of the source. -/
theorem filter_significantTokens_sublist (tokens : List Token) :
    ((significantTokens tokens).filter fun token => !token.endsStatement).Sublist tokens := by
  induction tokens with
  | nil => exact .slnil
  | cons token rest ih =>
    have unchanged : ((token :: significantTokens rest).filter fun token => !token.endsStatement).Sublist
        (token :: rest) := by
      rw [List.filter_cons]
      split
      · exact ih.cons_cons token
      · exact ih.cons token
    unfold significantTokens
    rw [List.filterMap_cons]
    split
    · exact ih.cons token
    · rename_i other same
      split at same
      · cases same
      · cases same
      · cases same
        exact ih.cons token
      · cases same
        exact unchanged

/-- The signs of the trees are written by tokens of the source, in the order of the text. -/
theorem parseTokens_spells {tokens : List Token} {limit : Nat} {nodes : List Node} {skipped : Nat}
    (parsed : parseTokens tokens limit = .ok (nodes, skipped)) :
    ∃ heads, heads.Sublist tokens ∧ List.Forall₂ Sign.IsWritten (signs nodes) heads := by
  simp only [parseTokens] at parsed
  split at parsed
  · cases parsed
  · rename_i found cursor run
    cases parsed
    let start : Cursor := { rest := significantTokens tokens }
    have spells : Spelled start.ahead ([] ++ signs nodes) cursor.ahead :=
      (Inner.ofDepth_spells ((significantTokens tokens).length + 1) limit).statements none .nothing
        start nodes cursor rfl run
    rw [List.nil_append] at spells
    obtain ⟨taken, heads, parts, inTaken, written⟩ := spells.exists_sublist
    have significant : heads.Sublist (significantTokens tokens) :=
      (inTaken.trans (parts ▸ List.sublist_append_left taken cursor.ahead)).trans List.filter_sublist
    refine ⟨heads, ?_, written⟩
    have kept : heads.filter (fun token => !token.endsStatement) = heads := by
      refine List.filter_eq_self.mpr fun token member => ?_
      obtain ⟨index, bound, same⟩ := List.mem_iff_getElem.mp member
      have atIndex := written.get (by rw [written.length_eq]; exact bound) bound
      rw [List.get_eq_getElem, List.get_eq_getElem] at atIndex
      exact same ▸ atIndex.not_endsStatement
    exact kept ▸ (significant.filter _).trans (filter_significantTokens_sublist tokens)

theorem parseSource_spells {path source : String} {limit : Nat} {unit : SourceUnit} {log : List LogRecord}
    (parsed : parseSource path source limit = .ok (unit, log)) :
    unit.path = path ∧ ∃ tokens heads, sourceTokens source = .ok tokens ∧ heads.Sublist tokens ∧
      List.Forall₂ Sign.IsWritten (signs unit.nodes) heads := by
  unfold parseSource at parsed
  split at parsed
  · cases parsed
  · rename_i tokens read
    split at parsed
    · cases parsed
    · rename_i nodes skipped trees
      cases parsed
      obtain ⟨heads, inTokens, written⟩ := parseTokens_spells trees
      exact ⟨rfl, tokens, heads, read, inTokens, written⟩

end FormHarvest
