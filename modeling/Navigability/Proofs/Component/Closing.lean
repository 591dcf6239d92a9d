import Navigability.Proofs.Component.Invariant

/-!
# Closing a point keeps the invariant

When the row of the top of the path is read to the end, the point has told everything it knows. If
it reaches a smaller number than its own it is no root: it stays on the trail and has told its
parent. Otherwise the points on the trail down to it reach each other, and no step leads from them
to another open point: they are a component.

## Main results

* `Snapshot.LowLinks.retire`: what is known about the path when its top has told its parent
* `Snapshot.component_mutual`, `Snapshot.component_isolated`: the points above a root
* `Snapshot.Bookkeeping.close_onTrail`: what was entered before the point stays where it is
* `Snapshot.Invariant.close`: the invariant holds again when a point was closed
-/

namespace Navigability.Component.Snapshot

variable {γ : Type} [Adjacency γ] {selection : Selection} {graph : γ} {σ : Snapshot}
  {v : Nat} {below : List Nat}

/-! ## The top of the path -/

theorem Bookkeeping.parent_eq (book : σ.Bookkeeping selection graph) (path : σ.path = v :: below) :
    σ.parent v = below.headD v :=
  (book.linked v below (path ▸ List.suffix_rfl)).1

theorem Bookkeeping.parent_mem_path (book : σ.Bookkeeping selection graph)
    (path : σ.path = v :: below) : σ.parent v ∈ σ.path := by
  rw [book.parent_eq path, path]
  cases below <;> simp

theorem Bookkeeping.retire (book : σ.Bookkeeping selection graph) (low : Nat) :
    (σ.retire v low).Bookkeeping selection graph where
  visited_iff p := by simpa using book.visited_iff p
  distinct := by simpa using book.distinct
  member p := by simpa using book.member p
  count := by simpa using book.count
  index_le p := by simpa using book.index_le p
  index_injective p q := by simpa using book.index_injective p q
  onTrail_iff p := by simpa using book.onTrail_iff p
  listed_iff p := by simpa using book.listed_iff p
  descending := by simpa using book.descending
  path_sublist := by simpa using (List.tail_sublist _).trans book.path_sublist
  linked u rest suffix := by
    rw [retire_path] at suffix
    rw [retire_parent]
    exact book.linked u rest (suffix.trans (List.tail_suffix _))
  position_le u mem := by
    rw [retire_path] at mem
    rw [retire_position]
    exact book.position_le u (List.mem_of_mem_tail mem)
  read_settled u mem x := by
    rw [retire_path] at mem
    rw [retire_position]
    simpa [Settled] using book.read_settled u (List.mem_of_mem_tail mem) x

theorem Output.retire (output : σ.Output selection graph) (low : Nat) :
    (σ.retire v low).Output selection graph where
  isolated u := by simpa only [retire_components] using output.isolated u
  inhabited component := by simpa only [retire_components] using output.inhabited component
  mutual_paths component := by simpa only [retire_components] using output.mutual_paths component
  ordered := by simpa only [retire_components] using output.ordered
  reported := by simpa only [retire_components, retire_reports] using output.reported

/-- The top of the path reaches the least number that closing it finds, which is what it knew or
that of an entry of its row. -/
theorem LowLinks.lowest_attained (links : σ.LowLinks selection graph)
    (book : σ.Bookkeeping selection graph) (path : σ.path = v :: below) :
    ∃ z ∈ σ.trail, σ.index z = σ.lowest selection (Adjacency.row graph v) (σ.low v) ∧
      selection.Reaches graph v z := by
  have mem := top_mem path
  rcases lowest_eq_or (σ.low v) with same | ⟨w, neighbor, member, trail, found⟩
  · rw [same]
    exact links.low_attained v mem
  · have source := book.member v (book.visited_of_path mem)
    exact ⟨w, (book.onTrail_iff w).1 trail, found.symm, .single ⟨source, neighbor, member⟩⟩

section Retire

variable (path : σ.path = v :: below) (low : Nat)

include path

theorem Bookkeeping.retire_low_le (book : σ.Bookkeeping selection graph) {u : Nat}
    (h : u ∈ below) : (σ.retire v low).low u ≤ σ.low u := by
  rw [retire_low σ v low fun same => book.top_not_mem path (same ▸ h)]
  split
  · exact Nat.min_le_left _ _
  · exact Nat.le_refl _

/-- The point below the top is its parent, and is told. -/
theorem Bookkeeping.retire_low_head (book : σ.Bookkeeping selection graph) {u : Nat}
    {rest : List Nat} (shape : below = u :: rest) :
    (σ.retire v low).low u = min (σ.low u) low := by
  have away : u ≠ v := fun same => book.top_not_mem path (by simp [shape, same])
  have parent : u = σ.parent v := by rw [book.parent_eq path, shape, List.headD_cons]
  rw [retire_low σ v low away, if_pos parent]

/-- The points of the path further down are not told. -/
theorem Bookkeeping.retire_low_tail (book : σ.Bookkeeping selection graph) {u : Nat}
    (h : u ∈ below.tail) : (σ.retire v low).low u = σ.low u := by
  have away : u ≠ v := fun same => book.top_not_mem path (same ▸ List.mem_of_mem_tail h)
  have other : u ≠ σ.parent v := by
    intro same
    rw [book.parent_eq path] at same
    cases shape : below with
    | nil => simp [shape] at h
    | cons parent rest =>
      have nodup := book.trail_nodup.sublist book.path_sublist
      rw [path, shape, List.nodup_cons, List.nodup_cons] at nodup
      rw [shape, List.headD_cons] at same
      rw [shape, List.tail_cons, same] at h
      exact nodup.2.1 h
  rw [retire_low σ v low away, if_neg other]

/-- Of the path without its top, its new top guards what was entered no earlier than the old. -/
theorem Bookkeeping.eq_head_of_guardian (book : σ.Bookkeeping selection graph) {g x : Nat}
    (guard : (σ.retire v low).Guardian g x) (le : σ.index v ≤ σ.index x) :
    ∃ rest, below = g :: rest := by
  have tail : (σ.retire v low).path = below := by rw [retire_path, path, List.tail_cons]
  have mem := guard.mem
  rw [tail] at mem
  cases shape : below with
  | nil => simp [shape] at mem
  | cons u rest =>
    -- The new top was entered before the old one, so it competes with the guard, and no point
    -- further down is greater.
    have descending := book.descending.sublist book.path_sublist
    rw [path, shape, List.pairwise_cons, List.pairwise_cons] at descending
    have greatest := guard.greatest u (by rw [tail, shape]; simp)
    rw [retire_index] at greatest
    have above := greatest ((Nat.le_of_lt (descending.1 u (by simp))).trans le)
    rcases List.mem_cons.1 (shape ▸ mem) with same | later
    · exact ⟨rest, by rw [same]⟩
    · have earlier := descending.2.1 g later
      omega

end Retire

/-- When the top of the path has told its parent what it reaches, what is known about the rest of
the path holds again. -/
theorem LowLinks.retire (links : σ.LowLinks selection graph) (book : σ.Bookkeeping selection graph)
    (path : σ.path = v :: below)
    (settled : ∀ x ∈ Adjacency.row graph v, σ.Settled selection x) :
    (σ.retire v (σ.lowest selection (Adjacency.row graph v) (σ.low v))).LowLinks selection
      graph := by
  generalize found : σ.lowest selection (Adjacency.row graph v) (σ.low v) = low
  have tail : (σ.retire v low).path = below := by rw [retire_path, path, List.tail_cons]
  have inPath : ∀ u ∈ below, u ∈ σ.path := fun u mem => by simp [path, mem]
  have top := top_mem path
  constructor
  case closed_settled =>
    intro u visited away x mem
    rw [retire_index] at visited
    rw [tail] at away
    have old : σ.Settled selection x := by
      by_cases same : u = v
      · exact settled x (same ▸ mem)
      · exact links.closed_settled u visited (by simp [path, same, away]) x mem
    simpa [Settled] using old
  case descends =>
    intro u mem x trail
    rw [tail] at mem
    rw [retire_trail] at trail
    rw [retire_index]
    exact links.descends u (inPath u mem) x trail
  case low_le =>
    intro u mem
    rw [tail] at mem
    rw [retire_index]
    exact (book.retire_low_le path low mem).trans (links.low_le u (inPath u mem))
  case low_attained =>
    intro u mem
    rw [tail] at mem
    rw [retire_trail, retire_index, retire_low σ v low fun same =>
      book.top_not_mem path (same ▸ mem)]
    by_cases parent : u = σ.parent v ∧ low < σ.low u
    · -- The parent now reaches what the top reaches, by the step that leads to the top.
      obtain ⟨z, trail, attained, reach⟩ := links.lowest_attained book path
      refine ⟨z, trail, ?_, ?_⟩
      · rw [if_pos parent.1, Nat.min_eq_right (Nat.le_of_lt parent.2), attained, found]
      · exact (links.descends u (inPath u mem) v (book.trail_of_path top)
          (book.le_top path (inPath u mem))).trans reach
    · -- For all others, and for a parent that knew better, nothing has changed.
      obtain ⟨z, trail, attained, reach⟩ := links.low_attained u (inPath u mem)
      refine ⟨z, trail, ?_, reach⟩
      rw [attained]
      split
      · next isParent =>
        exact (Nat.min_eq_left (Nat.le_of_not_lt fun lt => parent ⟨isParent, lt⟩)).symm
      · rfl
  case low_bound =>
    intro x trail away z ztrail step g guard
    rw [retire_trail] at trail ztrail
    rw [tail] at away
    rw [retire_index]
    by_cases later : σ.index v ≤ σ.index x
    · -- What is not below the least number of the top is not below that of its parent.
      obtain ⟨rest, shape⟩ := book.eq_head_of_guardian path low guard later
      have bound : low ≤ σ.index z := by
        rw [← found]
        by_cases same : x = v
        · exact lowest_le_index (same ▸ step.neighbor) step.target
            ((book.onTrail_iff z).2 ztrail)
        · exact lowest_le.trans (links.low_bound x trail (by simp [path, same, away]) z ztrail step
            v (book.guardian_top path later))
      rw [book.retire_low_head path low shape]
      exact (Nat.min_le_right _ _).trans bound
    · -- What was entered before the top has the guard that it had.
      have same : x ≠ v := fun same => later (same ▸ Nat.le_refl _)
      have mem : g ∈ below := tail ▸ guard.mem
      refine (book.retire_low_le path low mem).trans
        (links.low_bound x trail (by simp [path, same, away]) z ztrail step g
          ⟨inPath g mem, ?_, ?_⟩)
      · simpa using guard.le
      · intro u inside le
        rw [path] at inside
        rcases List.mem_cons.1 inside with same | inside
        · exact absurd (same ▸ le) later
        · simpa using guard.greatest u (tail ▸ inside) (by simpa using le)

/-! ## The points above a root -/

theorem Bookkeeping.mem_component_iff (book : σ.Bookkeeping selection graph)
    {above rest : List Nat} (shape : σ.trail = above ++ v :: rest) {x : Nat}
    (trail : x ∈ σ.trail) : x ∈ above ++ [v] ↔ σ.index v ≤ σ.index x := by
  have descending := book.descending
  rw [shape, List.pairwise_append, List.pairwise_cons] at descending
  rw [shape, List.mem_append, List.mem_cons] at trail
  rw [List.mem_append, List.mem_singleton]
  constructor
  · rintro (above | rfl)
    · exact Nat.le_of_lt (descending.2.2 x above v List.mem_cons_self)
    · exact Nat.le_refl _
  · intro le
    rcases trail with above | same | rest
    · exact .inl above
    · exact .inr same
    · have earlier := descending.2.1.1 x rest
      omega

section Component

variable (inv : σ.Invariant selection graph) (path : σ.path = v :: below)

include inv path

/-- The points entered no earlier than the top of the path reach it and are reached from it. -/
theorem component_mutual {x : Nat} (trail : x ∈ σ.trail) (le : σ.index v ≤ σ.index x) :
    selection.Reaches graph v x ∧ selection.Reaches graph x v := by
  have top := top_mem path
  refine ⟨inv.descends v top x trail le, ?_⟩
  obtain ⟨y, mem, _, reach⟩ := inv.supported x trail
  exact reach.trans (inv.descends y mem v (inv.trail_of_path top) (inv.le_top path mem))

/-- From the points entered no earlier than a root no step leads to a point of the trail entered
before it. The top is the last point of the path, so all others of the component are closed; and a
root knows of no smaller number, neither from its row nor from what it guards. -/
theorem component_isolated (settled : ∀ x ∈ Adjacency.row graph v, σ.Settled selection x)
    (root : σ.lowest selection (Adjacency.row graph v) (σ.low v) = σ.index v) {x w : Nat}
    (trail : x ∈ σ.trail) (le : σ.index v ≤ σ.index x) (step : selection.Step graph x w) :
    w ∈ σ.trail ∧ σ.index v ≤ σ.index w ∨ w ∈ σ.components.flatten := by
  have away : x ≠ v → x ∉ σ.path := by
    intro other mem
    apply other
    apply inv.index_injective x v (inv.visited_of_trail trail)
    exact Nat.le_antisymm (inv.le_top path mem) le
  have visited : σ.index w ≠ 0 := by
    by_cases same : x = v
    · exact (settled w (same ▸ step.neighbor)).2 step.target
    · exact (inv.closed_settled x (inv.visited_of_trail trail) (away same) w step.neighbor).2
        step.target
  refine ((inv.visited_iff w).1 visited).imp_left fun open' => ⟨open', ?_⟩
  rw [← root]
  by_cases same : x = v
  · exact lowest_le_index (same ▸ step.neighbor) step.target ((inv.onTrail_iff w).2 open')
  · exact lowest_le.trans (inv.low_bound x trail (away same) w open' step v
      (inv.guardian_top path le))

end Component

/-! ## Putting out a component -/

section Complete

variable {above rest : List Nat} (shape : σ.trail = above ++ v :: rest)

include shape

theorem complete_eq (book : σ.Bookkeeping selection graph) : σ.complete v =
    { σ.unload (above ++ [v]) rest with
      components := σ.components ++ [above ++ [v]]
      reports := σ.reports ++ [closingEvent v (above ++ [v])] } := by
  rw [complete, shape, unstack_append rest (book.trail_cut shape).1]

/-- The points of the component change sides, and that is all. -/
theorem Bookkeeping.complete (book : σ.Bookkeeping selection graph)
    (lower : ∀ u ∈ σ.path, u ∉ above ++ [v]) : (σ.complete v).Bookkeeping selection graph := by
  have moved : List.Perm (σ.trail ++ σ.components.flatten)
      (rest ++ (σ.components ++ [above ++ [v]]).flatten) := by
    have regroup : σ.trail ++ σ.components.flatten =
        (above ++ [v]) ++ (rest ++ σ.components.flatten) := by simp [shape]
    rw [regroup, List.flatten_append, List.flatten_singleton, ← List.append_assoc rest]
    exact List.perm_append_comm
  rw [complete_eq shape book]
  constructor
  case visited_iff =>
    intro p
    refine (book.visited_iff p).trans ?_
    rw [← List.mem_append, moved.mem_iff, List.mem_append]
    rfl
  case distinct => exact moved.nodup_iff.1 book.distinct
  case member => exact book.member
  case count => exact book.count.trans moved.length_eq
  case index_le => exact book.index_le
  case index_injective => exact book.index_injective
  case onTrail_iff =>
    intro p
    have regroup : σ.trail = (above ++ [v]) ++ rest := by simp [shape]
    have trail := book.onTrail_iff p
    rw [regroup, List.mem_append] at trail
    simp only [unload, Bool.and_eq_true, decide_eq_true_eq, trail]
    constructor
    · rintro ⟨component | mem, away⟩
      · exact absurd component away
      · exact mem
    · intro mem
      exact ⟨.inr mem, fun component => ((book.trail_cut shape).2 p component).2 mem⟩
  case listed_iff =>
    intro p
    have listed := book.listed_iff p
    simp [unload, listed]
  case descending =>
    have descending := book.descending
    rw [shape, List.pairwise_append, List.pairwise_cons] at descending
    exact descending.2.1.2
  case path_sublist =>
    have sublist := book.path_sublist
    have regroup : σ.trail = (above ++ [v]) ++ rest := by simp [shape]
    rw [regroup, List.sublist_append_iff] at sublist
    obtain ⟨first, second, split, high, low⟩ := sublist
    have none : first = [] := List.eq_nil_iff_forall_not_mem.2 fun u mem =>
      lower u (by simp [split, mem]) (high.subset mem)
    rw [none, List.nil_append] at split
    exact split ▸ low
  case linked => exact book.linked
  case position_le => exact book.position_le
  case read_settled => exact book.read_settled

theorem LowLinks.complete (links : σ.LowLinks selection graph)
    (book : σ.Bookkeeping selection graph) (lower : ∀ u ∈ σ.path, σ.index u < σ.index v) :
    (σ.complete v).LowLinks selection graph := by
  have old : ∀ x ∈ rest, x ∈ σ.trail := fun x mem => by simp [shape, mem]
  rw [complete_eq shape book]
  constructor
  case closed_settled => exact links.closed_settled
  case descends => exact fun u path x mem => links.descends u path x (old x mem)
  case low_le => exact links.low_le
  case low_attained =>
    intro u path
    obtain ⟨z, trail, attained, reach⟩ := links.low_attained u path
    refine ⟨z, ?_, attained, reach⟩
    -- It reaches no later point than itself, and so none of the component.
    have early : ¬ σ.index v ≤ σ.index z := by
      have le := links.low_le u path
      have lt := lower u path
      omega
    rw [← book.mem_component_iff shape trail, List.mem_append, not_or, List.mem_singleton] at early
    rw [shape, List.mem_append, List.mem_cons] at trail
    exact (trail.resolve_left early.1).resolve_left early.2
  case low_bound =>
    intro x mem away z mem' step u guard
    exact links.low_bound x (old x mem) away z (old z mem') step u
      ⟨guard.mem, guard.le, guard.greatest⟩

/-- Two points of the new component meet in its root, and no path leaves what is out. -/
theorem Output.complete (output : σ.Output selection graph) (book : σ.Bookkeeping selection graph)
    (mutual_paths : ∀ x ∈ above ++ [v], selection.Reaches graph v x ∧ selection.Reaches graph x v)
    (isolated : ∀ x ∈ above ++ [v], ∀ w, selection.Step graph x w →
      w ∈ above ++ [v] ∨ w ∈ σ.components.flatten) :
    (σ.complete v).Output selection graph := by
  rw [complete_eq shape book]
  constructor
  case isolated =>
    intro u mem w step
    simp only [List.flatten_append, List.flatten_singleton,
      List.mem_append (s := σ.components.flatten)] at mem ⊢
    rcases mem with old | new
    · exact .inl (output.isolated u old w step)
    · exact (isolated u new w step).symm
  case inhabited =>
    intro component mem
    rcases List.mem_append.1 mem with old | new
    · exact output.inhabited component old
    · rw [List.mem_singleton.1 new]
      simp
  case mutual_paths =>
    intro component mem x hx y hy
    rcases List.mem_append.1 mem with old | new
    · exact output.mutual_paths component old x hx y hy
    · rw [List.mem_singleton.1 new] at hx hy
      exact (mutual_paths x hx).2.trans (mutual_paths y hy).1
  case ordered =>
    refine List.pairwise_append.2 ⟨output.ordered, List.pairwise_singleton _ _, ?_⟩
    intro earlier old later new x hx y hy reach
    rw [List.mem_singleton.1 new] at hy
    have out : y ∈ σ.components.flatten := reach.of_closed output.isolated
      (List.mem_flatten.2 ⟨earlier, old, hx⟩)
    exact book.not_listed ((book.trail_cut shape).2 y hy).1 out
  case reported =>
    simp [output.reported, closingEvent]

end Complete

/-- Closing a point takes nothing off the trail that was entered before it. -/
theorem Bookkeeping.close_onTrail (book : σ.Bookkeeping selection graph)
    (path : σ.path = v :: below) (row : List Nat) {x : Nat} (early : σ.index x < σ.index v) :
    (σ.close selection v row).onTrail x = σ.onTrail x := by
  have top := top_mem path
  obtain ⟨above, rest, shape⟩ := List.append_of_mem (book.trail_of_path top)
  rw [close]
  split
  · next root =>
    have shape' : (σ.retire v (σ.index v)).trail = above ++ v :: rest := by
      rw [retire_trail, shape]
    rw [root, complete_eq shape' (book.retire _)]
    show ((σ.retire v _).onTrail x && x ∉ above ++ [v]) = σ.onTrail x
    rw [retire_onTrail]
    have away : x ∉ above ++ [v] := by
      intro mem
      have trail := ((book.trail_cut shape).2 x mem).1
      have le := (book.mem_component_iff shape trail).1 mem
      omega
    simp [away]
  · rw [retire_onTrail]

/-! ## The invariant after closing -/

section Close

variable (inv : σ.Invariant selection graph) (path : σ.path = v :: below)
  (settled : ∀ x ∈ Adjacency.row graph v, σ.Settled selection x)

include inv path settled

/-- A point that is no root stays on the trail: it reaches a point of the path below it. -/
theorem Invariant.retire
    (small : σ.lowest selection (Adjacency.row graph v) (σ.low v) < σ.index v) :
    (σ.retire v (σ.lowest selection (Adjacency.row graph v) (σ.low v))).Invariant selection
      graph where
  toBookkeeping := inv.toBookkeeping.retire _
  toLowLinks := inv.toLowLinks.retire inv.toBookkeeping path settled
  toOutput := inv.toOutput.retire _
  supported x trail := by
    rw [retire_trail] at trail
    rw [retire_path, retire_index, path, List.tail_cons]
    obtain ⟨y, mem, le, reach⟩ := inv.supported x trail
    rcases List.mem_cons.1 (path ▸ mem) with same | mem
    · -- Where the top was reached, the point it reaches leads on down the path.
      obtain ⟨z, ztrail, attained, reach'⟩ :=
        inv.toLowLinks.lowest_attained inv.toBookkeeping path
      obtain ⟨y', mem', le', reach''⟩ := inv.supported z ztrail
      rw [attained] at le'
      rw [same] at le reach
      rcases List.mem_cons.1 (path ▸ mem') with same' | mem'
      · rw [same'] at le'
        omega
      · exact ⟨y', mem', by omega, reach.trans (reach'.trans reach'')⟩
    · exact ⟨y, mem, le, reach⟩

/-- The points down to a root are a component. What remains on the trail was entered before the
root, and is supported by such a point. -/
theorem Invariant.complete
    (root : σ.lowest selection (Adjacency.row graph v) (σ.low v) = σ.index v) :
    ((σ.retire v (σ.index v)).complete v).Invariant selection graph := by
  have top := top_mem path
  obtain ⟨above, rest, shape⟩ := List.append_of_mem (inv.trail_of_path top)
  have book := inv.toBookkeeping.retire (v := v) (σ.index v)
  have shape' : (σ.retire v (σ.index v)).trail = above ++ v :: rest := by
    rw [retire_trail, shape]
  have links : (σ.retire v (σ.index v)).LowLinks selection graph :=
    root ▸ inv.toLowLinks.retire inv.toBookkeeping path settled
  have inside : ∀ x ∈ above ++ [v], x ∈ σ.trail :=
    fun x mem => ((inv.trail_cut shape).2 x mem).1
  have later : ∀ x ∈ above ++ [v], σ.index v ≤ σ.index x := fun x mem =>
    (inv.mem_component_iff shape (inside x mem)).1 mem
  have lower : ∀ u ∈ (σ.retire v (σ.index v)).path, σ.index u < σ.index v := by
    intro u mem
    rw [retire_path, path] at mem
    exact inv.below_lt path mem
  refine ⟨book.complete shape' ?_, links.complete shape' book ?_,
    (inv.toOutput.retire _).complete shape' book ?_ ?_, ?_⟩
  · intro u mem component
    have lt := lower u mem
    have le := later u component
    omega
  · simpa only [retire_index] using lower
  · intro x mem
    exact component_mutual inv path (inside x mem) (later x mem)
  · intro x mem w step
    rw [retire_components]
    refine (component_isolated inv path settled root (inside x mem) (later x mem) step).imp_left ?_
    exact fun found => (inv.mem_component_iff shape found.1).2 found.2
  · intro x mem
    rw [complete_eq shape' book] at mem ⊢
    have trail : x ∈ σ.trail := by simp [shape, show x ∈ rest from mem]
    obtain ⟨y, found, le, reach⟩ := inv.supported x trail
    have early : ¬ σ.index v ≤ σ.index x := by
      rw [← inv.mem_component_iff shape trail]
      exact fun component => ((inv.trail_cut shape).2 x component).2 mem
    rcases List.mem_cons.1 (path ▸ found) with same | found
    · exact absurd (same ▸ le) early
    · refine ⟨y, ?_, ?_, reach⟩
      · show y ∈ (σ.retire v (σ.index v)).path
        rw [retire_path, path]
        exact found
      · show (σ.retire v (σ.index v)).index y ≤ (σ.retire v (σ.index v)).index x
        rw [retire_index]
        exact le

/-- **Closing the top of the path**, all of whose row is settled, keeps the invariant. -/
theorem Invariant.close : (σ.close selection v (Adjacency.row graph v)).Invariant selection
    graph := by
  rw [Snapshot.close]
  by_cases root : σ.lowest selection (Adjacency.row graph v) (σ.low v) = σ.index v
  · rw [if_pos root, root]
    exact inv.complete path settled root
  · rw [if_neg root]
    exact inv.retire path settled
      (Nat.lt_of_le_of_ne (lowest_le.trans (inv.low_le v (top_mem path))) root)

end Close

end Navigability.Component.Snapshot
