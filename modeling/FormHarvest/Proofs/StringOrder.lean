import FormHarvest.Proofs.SourceSigns

namespace FormHarvest

/-- A string as it is written in a source: its value, whether it is interpolated, and its line. -/
structure WrittenString where
  value : String
  interpolated : Bool
  line : Int
deriving DecidableEq

/-- The string that a node is. -/
def Node.writtenString? : Node → Option WrittenString
  | .string value interpolated mark => some ⟨value, interpolated, mark.line⟩
  | _ => none

/-- The string that a token is. -/
def Token.writtenString? (token : Token) : Option WrittenString :=
  if token.kind = .string then some ⟨token.text, token.interpolated, token.line⟩ else none

/-- The string that a sign is. -/
def Sign.writtenString? : Sign → Option WrittenString
  | text value interpolated line => some ⟨value, interpolated, line⟩
  | _ => none

/-- A method call is no string, and so strings stand in the same order whether a call comes before
what it is called on or behind it. -/
theorem filterMap_writtenString?_walk (nodes : List Node) :
    (walk nodes).filterMap Node.writtenString? = (textOrder nodes).filterMap Node.writtenString? := by
  induction nodes using Node.forest_induction with
  | nil => rw [walk_nil, textOrder_nil]
  | cons node rest inside behind =>
    rw [← node.front_append_back, textOrder_append, node.front_append_back] at inside
    rw [walk_cons, textOrder_cons]
    cases node with
    | methodCall receiver name args mark =>
      simp only [List.filterMap_append, List.filterMap_cons, Node.writtenString?] at inside ⊢
      rw [inside, behind]
    | _ =>
      simp only [Node.front, textOrder_nil, List.nil_append] at inside ⊢
      simp only [List.cons_append, List.filterMap_cons, List.filterMap_append, inside, behind]

theorem filterMap_writtenString?_signs (nodes : List Node) :
    (signs nodes).filterMap Sign.writtenString? = (walk nodes).filterMap Node.writtenString? := by
  rw [filterMap_writtenString?_walk, signs, List.filterMap_filterMap]
  congr 1
  funext node
  cases node <;> rfl

/-- A sign and the token that writes it are the same string, or both are none. -/
theorem Sign.IsWritten.writtenString?_eq {sign : Sign} {token : Token} (written : sign.IsWritten token) :
    sign.writtenString? = token.writtenString? := by
  cases sign with
  | text value interpolated line =>
    obtain ⟨kind, rfl, rfl, rfl⟩ := written
    rw [Token.writtenString?, if_pos kind]
    rfl
  | number raw line => rw [Token.writtenString?, if_neg (by simp [written.1])]; rfl
  | call name line =>
    rw [Token.writtenString?, if_neg]
    · rfl
    intro kind
    rcases written.1 with ⟨isName, -⟩ | ⟨isVariable, -⟩ | ⟨isBrace, -⟩
    · simp [kind] at isName
    · simp [kind] at isVariable
    · simp [isSign, kind] at isBrace

theorem filterMap_writtenString?_eq {signs : List Sign} {tokens : List Token}
    (written : List.Forall₂ Sign.IsWritten signs tokens) :
    signs.filterMap Sign.writtenString? = tokens.filterMap Token.writtenString? := by
  induction written with
  | nil => rfl
  | cons first _ ih => rw [List.filterMap_cons, List.filterMap_cons, first.writtenString?_eq, ih]

/-- The strings of the trees of a source come one after the other from its string tokens: none comes
twice, none is new and none changes its place. -/
theorem parseSource_strings_sublist {path source : String} {limit : Nat} {unit : SourceUnit} {log : List LogRecord}
    (parsed : parseSource path source limit = .ok (unit, log)) :
    ∃ tokens, sourceTokens source = .ok tokens ∧
      ((walk unit.nodes).filterMap Node.writtenString?).Sublist
        (tokens.filterMap Token.writtenString?) := by
  obtain ⟨-, tokens, heads, read, inTokens, written⟩ := parseSource_spells parsed
  refine ⟨tokens, read, ?_⟩
  rw [← filterMap_writtenString?_signs, filterMap_writtenString?_eq written]
  exact inTokens.filterMap _

/-- A chain of calls, each with a string, whose trees are built from its end; a closure drops the
strings of its import list, and a stray bracket is skipped. -/
def chainedStrings : String :=
  "<?php\n$b->add('a',\n 'b')->add(\"c $d\", function () use ('e') \x7b return ['f' => 'g'];\x7d) ];"

theorem chainedStrings_strings_sublist :
    ∃ unit log tokens, parseSource "T.php" chainedStrings = .ok (unit, log) ∧
      sourceTokens chainedStrings = .ok tokens ∧
      (walk unit.nodes).filterMap Node.writtenString?
        = [⟨"a", false, 2⟩, ⟨"b", false, 3⟩, ⟨"c $d", true, 3⟩, ⟨"f", false, 3⟩, ⟨"g", false, 3⟩] ∧
      ((walk unit.nodes).filterMap Node.writtenString?).Sublist
        (tokens.filterMap Token.writtenString?) := by
  have checked : (parseSource "T.php" chainedStrings).toOption.any (fun parsed =>
      decide ((walk parsed.1.nodes).filterMap Node.writtenString?
        = [⟨"a", false, 2⟩, ⟨"b", false, 3⟩, ⟨"c $d", true, 3⟩, ⟨"f", false, 3⟩,
          ⟨"g", false, 3⟩])) = true := by
    decide +kernel
  cases parsed : parseSource "T.php" chainedStrings with
  | error fault => rw [parsed] at checked; cases checked
  | ok value =>
    obtain ⟨unit, log⟩ := value
    rw [parsed] at checked
    obtain ⟨tokens, read, sublist⟩ := parseSource_strings_sublist parsed
    exact ⟨unit, log, tokens, rfl, read, of_decide_eq_true checked, sublist⟩

end FormHarvest
