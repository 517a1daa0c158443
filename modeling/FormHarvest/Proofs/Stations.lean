import FormHarvest.Extraction.Route
import FormHarvest.Proofs.Forest

namespace FormHarvest

theorem bind_eq_ok_iff {ε α β : Type} {first : Except ε α} {second : α → Except ε β} {b : β} :
    first >>= second = .ok b ↔ ∃ a, first = .ok a ∧ second a = .ok b := by
  cases first with
  | error fault => exact ⟨fun run => (nomatch run), fun ⟨_, run, _⟩ => (nomatch run)⟩
  | ok a => exact ⟨fun run => ⟨a, rfl, run⟩, fun ⟨_, same, run⟩ => by cases same; exact run⟩

theorem foldlM_cons_eq_ok_iff {ε α σ : Type} {step : σ → α → Except ε σ} {first : α} {rest : List α}
    {start last : σ} :
    (first :: rest).foldlM step start = .ok last ↔
      ∃ middle, step start first = .ok middle ∧ rest.foldlM step middle = .ok last := by
  rw [List.foldlM_cons]
  exact bind_eq_ok_iff

theorem foldlM_append_eq_ok_iff {ε α σ : Type} {step : σ → α → Except ε σ} {first second : List α}
    {start last : σ} :
    (first ++ second).foldlM step start = .ok last ↔
      ∃ middle, first.foldlM step start = .ok middle ∧ second.foldlM step middle = .ok last := by
  rw [List.foldlM_append]
  exact bind_eq_ok_iff

/-- What is done first is done in front of everything else. -/
theorem foldlM_append_of_ok {ε α σ : Type} {step : σ → α → Except ε σ} {first : List α}
    {start middle : σ} (run : first.foldlM step start = .ok middle) (second : List α) :
    (first ++ second).foldlM step start = second.foldlM step middle := by
  rw [List.foldlM_append, run]
  rfl

/-- A fault on the first part of a way is a fault on the whole of it. -/
theorem foldlM_append_of_error {ε α σ : Type} {step : σ → α → Except ε σ} {first : List α} {fault : ε}
    {start : σ} (run : first.foldlM step start = .error fault) (second : List α) :
    (first ++ second).foldlM step start = .error fault := by
  rw [List.foldlM_append, run]
  rfl

/-- A fault on a way is met at one of its stations. -/
theorem exists_of_foldlM_eq_error {ε α σ : Type} {step : σ → α → Except ε σ} {stations : List α} {fault : ε}
    {start : σ} (run : stations.foldlM step start = .error fault) :
    ∃ earlier station later middle, stations = earlier ++ station :: later ∧
      earlier.foldlM step start = .ok middle ∧ step middle station = .error fault := by
  induction stations generalizing start with
  | nil => cases run
  | cons first rest ih =>
    rw [List.foldlM_cons] at run
    cases taken : step start first with
    | error other =>
      rw [taken] at run
      cases run
      exact ⟨[], first, rest, start, rfl, rfl, taken⟩
    | ok next =>
      rw [taken] at run
      obtain ⟨earlier, station, later, middle, rfl, reached, failed⟩ := ih run
      exact ⟨first :: earlier, station, later, middle, rfl,
        foldlM_cons_eq_ok_iff.mpr ⟨next, taken, reached⟩, failed⟩

/-- Two ways to take steps that agree wherever the one is taken lead to the same place. -/
theorem foldlM_agrees {ε α σ : Type} {step other : σ → α → Except ε σ} {invariant : σ → Prop}
    {stations : List α}
    (agree : ∀ station ∈ stations, ∀ state next, invariant state → step state station = .ok next →
      other state station = .ok next ∧ invariant next)
    {start last : σ} (holds : invariant start) (run : stations.foldlM step start = .ok last) :
    stations.foldlM other start = .ok last := by
  induction stations generalizing start with
  | nil => exact run
  | cons first rest ih =>
    obtain ⟨middle, taken, behind⟩ := foldlM_cons_eq_ok_iff.mp run
    obtain ⟨same, kept⟩ := agree first List.mem_cons_self start middle holds taken
    exact foldlM_cons_eq_ok_iff.mpr
      ⟨middle, same, ih (fun station member => agree station (.tail first member)) kept behind⟩

/-- Steps that always succeed and keep an invariant can be taken one after the other. -/
theorem foldlM_eq_ok_of_steps {ε α σ : Type} {step : σ → α → Except ε σ} {invariant : σ → Prop}
    {stations : List α}
    (steps : ∀ station ∈ stations, ∀ state, invariant state →
      ∃ next, step state station = .ok next ∧ invariant next)
    {start : σ} (holds : invariant start) :
    ∃ last, stations.foldlM step start = .ok last ∧ invariant last := by
  induction stations generalizing start with
  | nil => exact ⟨start, rfl, holds⟩
  | cons first rest ih =>
    obtain ⟨middle, taken, kept⟩ := steps first List.mem_cons_self start holds
    obtain ⟨last, run, atEnd⟩ := ih (fun station member => steps station (.tail first member)) kept
    exact ⟨last, foldlM_cons_eq_ok_iff.mpr ⟨middle, taken, run⟩, atEnd⟩

/-- What every step that succeeds keeps holds at the end. -/
theorem foldlM_keeps {ε α σ : Type} {step : σ → α → Except ε σ} {invariant : σ → Prop} {stations : List α}
    (keeps : ∀ station ∈ stations, ∀ state next, invariant state → step state station = .ok next →
      invariant next)
    {start last : σ} (holds : invariant start) (run : stations.foldlM step start = .ok last) :
    invariant last := by
  induction stations generalizing start with
  | nil =>
    cases run
    exact holds
  | cons first rest ih =>
    obtain ⟨middle, taken, behind⟩ := foldlM_cons_eq_ok_iff.mp run
    exact ih (fun station member => keeps station (.tail first member))
      (keeps first List.mem_cons_self start middle holds taken) behind

/-- Steps that succeed on what the stations before them have left can be taken one after the other. -/
theorem foldlM_eq_ok_of_prefixes {ε α σ : Type} {step : σ → α → Except ε σ} (invariant : List α → σ → Prop)
    {stations : List α}
    (steps : ∀ earlier station later, stations = earlier ++ station :: later → ∀ state,
      invariant earlier state → ∃ next, step state station = .ok next ∧ invariant (earlier ++ [station]) next)
    {start : σ} (holds : invariant [] start) :
    ∃ last, stations.foldlM step start = .ok last ∧ invariant stations last := by
  have behind (earlier later : List α) (whole : stations = earlier ++ later) (state : σ)
      (holds : invariant earlier state) :
      ∃ last, later.foldlM step state = .ok last ∧ invariant stations last := by
    induction later generalizing earlier state with
    | nil => exact ⟨state, rfl, by rwa [whole, List.append_nil]⟩
    | cons station rest ih =>
      obtain ⟨next, taken, kept⟩ := steps earlier station rest whole state holds
      obtain ⟨last, run, atEnd⟩ := ih (earlier ++ [station]) (by rw [whole, List.append_assoc]; rfl) next kept
      exact ⟨last, foldlM_cons_eq_ok_iff.mpr ⟨next, taken, run⟩, atEnd⟩
  exact behind [] stations rfl start holds

/-- A station that is passed is passed by a step that succeeds. -/
theorem exists_step_of_foldlM_eq_ok {ε α σ : Type} {step : σ → α → Except ε σ} {stations : List α} {start last : σ}
    (run : stations.foldlM step start = .ok last) {station : α} (member : station ∈ stations) :
    ∃ state next, step state station = .ok next := by
  obtain ⟨front, back, rfl⟩ := List.append_of_mem member
  obtain ⟨state, -, behind⟩ := foldlM_append_eq_ok_iff.mp run
  obtain ⟨next, taken, -⟩ := foldlM_cons_eq_ok_iff.mp behind
  exact ⟨state, next, taken⟩

/-- Where every step adds what its station gives, the whole way adds what all its stations give. -/
theorem foldlM_gathers {ε α β σ : Type} {step : σ → α → Except ε σ} {holds : σ → β → Prop} {gives : α → β → Prop}
    {stations : List α}
    (steps : ∀ station ∈ stations, ∀ state, ∃ next, step state station = .ok next ∧
      ∀ b, holds next b ↔ holds state b ∨ gives station b) (start : σ) :
    ∃ last, stations.foldlM step start = .ok last ∧
      ∀ b, holds last b ↔ holds start b ∨ ∃ station ∈ stations, gives station b := by
  induction stations generalizing start with
  | nil => exact ⟨start, rfl, by simp⟩
  | cons first rest ih =>
    obtain ⟨middle, taken, added⟩ := steps first List.mem_cons_self start
    obtain ⟨last, run, others⟩ := ih (fun station member => steps station (.tail _ member)) middle
    refine ⟨last, foldlM_cons_eq_ok_iff.mpr ⟨middle, taken, run⟩, fun b => ?_⟩
    simp only [others, added, or_assoc, List.mem_cons, exists_eq_or_imp]

theorem route_append (first second : List Waypoint) :
    route (first ++ second) = route first ++ route second := by
  fun_induction route first with
  | case1 => rfl
  | case2 rest ih => rw [List.cons_append, route, ih]; rfl
  | case3 rest depth node ih =>
    rw [List.cons_append, route, ← List.append_assoc, ih]
    rfl

@[simp] theorem route_nil : route [] = [] := by rw [route]

/-- The way through a tree with trees beside it: the tree, its parts, the end of its body if it is a
class, and then the others. -/
theorem route_visits_cons (depth : Nat) (node : Node) (rest : List Node) :
    route ((node :: rest).map (.visit depth))
      = [.visit depth node] ++ route (node.children.map (.visit (depth + 1)))
        ++ (if node.isClassBody then [.leave] else []) ++ route (rest.map (.visit depth)) := by
  rw [List.map_cons, route, route_append, Waypoint.behind, route_append]
  have close : route (if node.isClassBody then [.leave] else [])
      = if node.isClassBody then [.leave] else [] := by
    split
    · rw [route, route_nil]
    · exact route_nil
  rw [close]
  simp only [List.cons_append, List.nil_append, List.append_assoc]

/-- The nodes that are visited are those met in the order of reading, and none is nested deeper than
the trees are high. -/
theorem visit_mem_route {start depth : Nat} {node : Node} {nodes : List Node}
    (member : Waypoint.visit depth node ∈ route (nodes.map (.visit start))) :
    node ∈ walk nodes ∧ depth < start + Node.height nodes := by
  induction nodes using Node.forest_induction generalizing start with
  | nil => simp only [List.map_nil, route_nil, List.not_mem_nil] at member
  | cons first rest inside behind =>
    rw [route_visits_cons] at member
    simp only [List.mem_append, List.mem_singleton] at member
    rw [mem_walk_cons, Node.height]
    rcases member with ((member | member) | member) | member
    · obtain ⟨sameDepth, same⟩ : depth = start ∧ node = first := by simpa using member
      exact ⟨.inl same, by omega⟩
    · obtain ⟨found, bound⟩ := inside member
      exact ⟨.inr (.inl found), by omega⟩
    · split at member <;> simp at member
    · obtain ⟨found, bound⟩ := behind member
      exact ⟨.inr (.inr found), by omega⟩

end FormHarvest
