import FormHarvest.Proofs.Merging
import FormHarvest.Proofs.ParsedTrees
import FormHarvest.Proofs.PrecedenceClimbing

namespace FormHarvest

/-- Trees have a node in every depth above their height, and the way leads through it. -/
theorem exists_visit_of_lt_height {nodes : List Node} {depth : Nat} (start : Nat)
    (above : depth < Node.height nodes) :
    ∃ node, Waypoint.visit (start + depth) node ∈ route (nodes.map (.visit start)) := by
  induction nodes using Node.forest_induction generalizing start depth with
  | nil =>
    rw [Node.height] at above
    cases above
  | cons first rest inside behind =>
    rw [Node.height] at above
    simp only [route_visits_cons, List.mem_append, List.mem_singleton]
    rcases Nat.lt_or_ge depth (Node.height rest) with others | high
    · obtain ⟨node, member⟩ := behind start others
      exact ⟨node, .inr member⟩
    · cases depth with
      | zero => exact ⟨first, .inl (.inl (.inl rfl))⟩
      | succ depth =>
        obtain ⟨node, member⟩ := inside (start + 1) (show depth < Node.height first.children by omega)
        rw [Nat.add_right_comm, Nat.add_assoc] at member
        exact ⟨node, .inl (.inl (.inr member))⟩

namespace Extraction

variable {extractor : Extractor} {before after : Extraction}

/-- A step that succeeds stands above the limit of nesting. -/
theorem depth_lt_of_step_eq_ok {depth : Nat} {node : Node}
    (run : step extractor before (.visit depth node) = .ok after) : depth < extractor.maxDepth := by
  by_contra deep
  simp only [step, if_pos (Nat.le_of_not_lt deep)] at run
  cases run

/-- Among trees without source units an extraction that goes on fails at nothing but the depth of a node. -/
theorem step_fails_only_deep (goesOn : extractor.effectivePolicy = .goOn) (always : before.visitsLeft = none)
    {station : Waypoint}
    (noUnit : ∀ depth node, station = .visit depth node → ∀ inner ∈ walk [node], inner.isSourceUnit = false)
    {fault : Interruption × Extraction} (failed : step extractor before station = .error fault) :
    ∃ depth node, station = .visit depth node ∧ fault = (.tooDeep node.isMethodCall, before) := by
  by_cases deep : ∃ depth node, station = .visit depth node ∧ extractor.maxDepth ≤ depth
  · obtain ⟨depth, node, rfl, low⟩ := deep
    simp only [step, if_pos low] at failed
    cases failed
    exact ⟨depth, node, rfl, rfl⟩
  · have possible (depth : Nat) (node : Node) (visited : station = .visit depth node) :
        depth < extractor.maxDepth ∧ ∀ inner ∈ walk [node], inner.isSourceUnit = false :=
      ⟨Nat.lt_of_not_le fun low => deep ⟨depth, node, visited, low⟩, noUnit depth node visited⟩
    obtain ⟨after, run, -⟩ := step_eq_ok goesOn always possible
    rw [run] at failed
    cases failed

end Extraction

namespace Extractor

variable {extractor : Extractor} {path : String}

/-- Trees that are nested too deeply end an extraction that goes on, at one of their nodes. -/
theorem run_eq_tooDeep (goesOn : extractor.effectivePolicy = .goOn) {nodes : List Node}
    (noUnit : ∀ node ∈ walk nodes, node.isSourceUnit = false)
    (deep : extractor.maxDepth < Node.height nodes) (catalogue : Catalogue) :
    ∃ node ∈ walk nodes, ∃ extraction,
      extractor.run path nodes catalogue = (some (.tooDeep node.isMethodCall), extraction) := by
  let start : Extraction := { catalogue, result := { path } }
  have never (depth : Nat) (node : Node) (member : Waypoint.visit depth node ∈ routeThrough nodes) :
      ∀ inner ∈ walk [node], inner.isSourceUnit = false := fun inner inside =>
    noUnit inner (mem_walk_trans (visit_mem_route member).1 inside)
  have keeps : ∀ station ∈ routeThrough nodes, ∀ state next : Extraction, state.visitsLeft = none →
      state.step extractor station = .ok next → next.visitsLeft = none := by
    intro station member state next always taken
    have possible (depth : Nat) (node : Node) (visited : station = .visit depth node) :
        depth < extractor.maxDepth ∧ ∀ inner ∈ walk [node], inner.isSourceUnit = false := by
      subst visited
      exact ⟨Extraction.depth_lt_of_step_eq_ok taken, never depth node member⟩
    obtain ⟨after, run, kept⟩ := Extraction.step_eq_ok goesOn always possible
    rw [run] at taken
    cases taken
    exact kept
  obtain ⟨deepest, member⟩ := exists_visit_of_lt_height 0 deep
  cases run : (routeThrough nodes).foldlM (Extraction.step extractor) start with
  | ok last =>
    -- the way leads through a node that no step can visit
    obtain ⟨earlier, later, parts⟩ := List.append_of_mem member
    rw [routeThrough, parts, foldlM_append_eq_ok_iff] at run
    obtain ⟨middle, -, behind⟩ := run
    obtain ⟨next, taken, -⟩ := foldlM_cons_eq_ok_iff.mp behind
    have shallow := Extraction.depth_lt_of_step_eq_ok taken
    omega
  | error fault =>
    obtain ⟨earlier, station, later, middle, parts, reached, failed⟩ := exists_of_foldlM_eq_error run
    have here : station ∈ routeThrough nodes := by
      rw [parts]
      exact List.mem_append_right _ List.mem_cons_self
    have always : middle.visitsLeft = none :=
      foldlM_keeps (fun station member => keeps station (by rw [parts]; exact List.mem_append_left _ member))
        rfl reached
    obtain ⟨depth, node, rfl, rfl⟩ := Extraction.step_fails_only_deep goesOn always
      (fun depth node visited => never depth node (visited ▸ here)) failed
    refine ⟨node, (visit_mem_route here).1, middle, ?_⟩
    simp only [start] at run
    simp only [Extractor.run, run]

/-- **What parses can be extracted as far as it is not nested too deeply.** An extraction that goes on comes
to its end on the trees of a source, and adds their messages, exactly if no more nodes stand inside each
other than it can visit. It ends at a node that lies too deep in all other trees. -/
theorem run_parsed_ends_iff (goesOn : extractor.effectivePolicy = .goOn) {source : String} {limit : Nat}
    {unit : SourceUnit} {log : List LogRecord} (parsed : parseSource path source limit = .ok (unit, log))
    (catalogue : Catalogue) :
    ((∃ extraction, extractor.run unit.path unit.nodes catalogue = (none, extraction) ∧
        extraction.result.complete = true ∧
        extraction.catalogue = catalogue.addAll (extractor.addedMessages path unit.nodes)) ↔
      Node.height unit.nodes ≤ extractor.maxDepth) ∧
    (extractor.maxDepth < Node.height unit.nodes →
      ∃ node ∈ walk unit.nodes, ∃ extraction,
        extractor.run unit.path unit.nodes catalogue = (some (.tooDeep node.isMethodCall), extraction)) := by
  obtain ⟨rfl, noUnit⟩ := parseSource_unitless parsed
  have failing (deep : extractor.maxDepth < Node.height unit.nodes) : ∃ node ∈ walk unit.nodes, ∃ extraction,
      extractor.run unit.path unit.nodes catalogue = (some (.tooDeep node.isMethodCall), extraction) :=
    run_eq_tooDeep goesOn noUnit deep catalogue
  refine ⟨⟨fun ⟨extraction, run, _⟩ => ?_, fun shallow => ?_⟩, failing⟩
  · by_contra deep
    obtain ⟨node, -, interrupted, failed⟩ := failing (Nat.lt_of_not_le deep)
    rw [run] at failed
    cases failed
  · exact run_eq_addAll goesOn ⟨shallow, noUnit⟩ catalogue

end Extractor

/-! ### Chains of one operator -/

theorem isNameStart_letter : isNameStart 'a' = true := by decide

/-- The variable `$a`. -/
def letterName : VariableName := ⟨'a', [], isNameStart_letter, List.all_nil⟩

/-- The operator that puts texts together. -/
def concatenating : LinkOperator := ⟨".", ⟨14, false⟩, by decide⟩

/-- A variable that is put together with itself again and again. -/
def concatenation : (links : Nat) → OperatorTree
  | 0 => .var letterName
  | links + 1 => .binary concatenating (concatenation links) (.var letterName)

theorem not_isLoose_concatenation (links : Nat) :
    (concatenation links).isLoose concatenating.binding.leftLeast = false := by
  cases links <;> rfl

/-- The parser goes on behind a link where it stands, so a chain nests no deeper than one link. -/
theorem nesting_concatenation_le (links : Nat) : (concatenation links).nesting ≤ 1 := by
  induction links with
  | zero => exact Nat.zero_le 1
  | succ links ih =>
    rw [concatenation, OperatorTree.nesting, not_isLoose_concatenation]
    exact Nat.max_le.mpr ⟨ih, Nat.le_refl 1⟩

/-- In the tree of a chain every link lies around the ones before it. -/
theorem height_concatenation (links : Nat) : Node.height [(concatenation links).node] = links + 1 := by
  have singleton (node : Node) : Node.height [node] = Node.height node.children + 1 := by
    simp only [Node.height, Nat.max_zero]
  induction links with
  | zero => simp only [singleton, concatenation, OperatorTree.node, Node.children, Node.height]
  | succ links ih =>
    have last : Node.height [(OperatorTree.var letterName).node] = 1 := by
      simp only [singleton, OperatorTree.node, Node.children, Node.height]
    rw [singleton] at ih
    rw [singleton, concatenation, OperatorTree.node, Node.children, Node.height, last, ih]
    omega

/-- A chain as it is written. -/
theorem source_concatenation (links : Nat) :
    (concatenation links).source
      = String.ofList ("<?php $a".toList ++ (List.replicate links " . $a".toList).flatten ++ " ;".toList) := by
  have written (rest : List Token) (filled : rest ≠ []) :
      blankSeparated ((concatenation links).tokens ++ rest)
        = "$a".toList ++ (List.replicate links " . $a".toList).flatten ++ ' ' :: blankSeparated rest := by
    induction links generalizing rest with
    | zero =>
      obtain ⟨next, rest, rfl⟩ := List.exists_cons_of_ne_nil filled
      rfl
    | succ links ih =>
      have parts : (concatenation (links + 1)).tokens
          = (concatenation links).tokens ++ [concatenating.token, letterName.token] := by
        rw [concatenation, OperatorTree.tokens, not_isLoose_concatenation]
        rfl
      obtain ⟨next, rest, rfl⟩ := List.exists_cons_of_ne_nil filled
      rw [parts, List.append_assoc, ih _ (by simp), List.replicate_succ', List.flatten_concat]
      simp only [List.append_assoc]
      rfl
  rw [OperatorTree.source, written [semicolonToken] (by simp)]
  simp only [List.append_assoc]
  rfl

/-- A chain is parsed however long it is. -/
theorem parseSource_concatenation (path : String) (links : Nat) :
    parseSource path (concatenation links).source = .ok (⟨path, [(concatenation links).node]⟩, []) := by
  have small : (concatenation links).nesting < maxNesting :=
    (nesting_concatenation_le links).trans_lt (by decide)
  simp only [parseSource, (concatenation links).sourceTokens_source, (concatenation links).parseTokens_tokens small]
  rfl

namespace Extractor

/-- Ten links are parsed and extracted. -/
theorem shortConcatenation_ends :
    ∃ unit extraction,
      parseSource "T.php" (concatenation 10).source = .ok (unit, []) ∧
      goingOn.run unit.path unit.nodes .empty = (none, extraction) ∧ extraction.result.complete = true := by
  have parsed := parseSource_concatenation "T.php" 10
  obtain ⟨extraction, run, complete, -⟩ :=
    (run_parsed_ends_iff (show goingOn.effectivePolicy = .goOn from rfl) parsed .empty).1.mpr (by
      rw [height_concatenation]
      decide)
  exact ⟨_, extraction, parsed, run, complete⟩

/-- Three thousand links are parsed, but their extraction ends at a node that lies too deep. -/
theorem longConcatenation_is_not_extracted :
    ∃ unit atCall extraction,
      (concatenation 3000).source
        = String.ofList ("<?php $a".toList ++ (List.replicate 3000 " . $a".toList).flatten ++ " ;".toList) ∧
      parseSource "T.php" (concatenation 3000).source = .ok (unit, []) ∧
      goingOn.effectivePolicy = .goOn ∧
      goingOn.run unit.path unit.nodes .empty = (some (.tooDeep atCall), extraction) := by
  have parsed := parseSource_concatenation "T.php" 3000
  have deep : goingOn.maxDepth < Node.height [(concatenation 3000).node] := by
    rw [height_concatenation]
    decide
  obtain ⟨node, -, extraction, run⟩ : ∃ node ∈ walk [(concatenation 3000).node], ∃ extraction,
      goingOn.run "T.php" [(concatenation 3000).node] .empty = (some (.tooDeep node.isMethodCall), extraction) :=
    run_eq_tooDeep rfl (parseSource_unitless parsed).2 deep .empty
  exact ⟨_, node.isMethodCall, extraction, source_concatenation 3000, parsed, rfl, run⟩

end Extractor

end FormHarvest
