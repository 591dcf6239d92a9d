import Mathlib.Data.List.Nodup
import Navigability.Proofs.Selection.Distance

/-!
# The frontier of a traversal

A traversal finds points and their levels, and expands the points in the order in which it found
them. The points before a position are expanded: every member in their rows is found, at most one
level further on. The levels ascend, and those from the last expanded point on differ by one at
most. Therefore every walk that is no longer than the levels to come has found its end, and the
level of a point is its distance from the start, also while points are still to be expanded.

## Main definitions

* `Frontier`: what is known when the points before a position are expanded
* `Fresh`: the members in a row that are not found yet

## Main results

* `Frontier.expand`: expanding the point at the position keeps the frontier
* `Frontier.distance`: levels are distances
* `Frontier.nearest`: a point at the position that frays is a nearest one
-/

namespace Navigability.Reach

variable {γ : Type} [Adjacency γ]

/-- What is known of the points that were found, each with its level, when those before a position
are expanded. -/
structure Frontier (selection : Selection) (graph : γ) (start position : Nat)
    (found : List (Nat × Nat)) : Prop where
  member : selection.isMember start
  start_mem : (start, 0) ∈ found
  position_le : position ≤ found.length
  walk : ∀ x ∈ found, selection.Walk graph x.2 start x.1
  distinct : (found.map Prod.fst).Nodup
  ascending : found.Pairwise fun x y => x.2 ≤ y.2
  near : ∀ x ∈ found.drop (position - 1), ∀ y ∈ found, y.2 ≤ x.2 + 1
  intact : ∀ x ∈ found.take position, ¬ selection.Frays graph x.1
  expanded : ∀ x ∈ found.take position, ∀ w, selection.Step graph x.1 w →
    ∃ level ≤ x.2 + 1, (w, level) ∈ found
  level_le : ∀ i (h : i < found.length), found[i].2 ≤ i

/-- The members in a row that are not found yet, each of them once. -/
structure Fresh (selection : Selection) (row : List Nat) (found : List (Nat × Nat))
    (fresh : List Nat) : Prop where
  distinct : fresh.Nodup
  mem_iff : ∀ w, w ∈ fresh ↔ w ∈ row ∧ selection.isMember w ∧ w ∉ found.map Prod.fst

variable {selection : Selection} {graph : γ} {start position : Nat} {found : List (Nat × Nat)}
  {p d : Nat}

/-! ## The fresh members of a row -/

namespace Fresh

variable {row fresh : List Nat} {w : Nat}

theorem nil : Fresh selection [] found [] := ⟨List.nodup_nil, by simp⟩

/-- What is no member, or found, is not fresh. -/
theorem skip (rest : Fresh selection row found fresh)
    (skipped : selection.isMember w → w ∈ found.map Prod.fst) :
    Fresh selection (w :: row) found fresh := by
  refine ⟨rest.distinct, fun x => ?_⟩
  rw [rest.mem_iff, List.mem_cons]
  constructor
  · rintro ⟨mem, member, unknown⟩
    exact ⟨.inr mem, member, unknown⟩
  · rintro ⟨rfl | mem, member, unknown⟩
    · exact absurd (skipped member) unknown
    · exact ⟨mem, member, unknown⟩

/-- A fresh member is found from then on. -/
theorem cons {level : Nat} (member : selection.isMember w) (unknown : w ∉ found.map Prod.fst)
    (rest : Fresh selection row (found ++ [(w, level)]) fresh) :
    Fresh selection (w :: row) found (w :: fresh) := by
  have known : ∀ x, x ∈ (found ++ [(w, level)]).map Prod.fst ↔ x ∈ found.map Prod.fst ∨ x = w := by
    simp
  have new : w ∉ fresh := by
    rw [rest.mem_iff, known]
    exact fun h => h.2.2 (.inr rfl)
  refine ⟨List.nodup_cons.2 ⟨new, rest.distinct⟩, fun x => ?_⟩
  rw [List.mem_cons, List.mem_cons, rest.mem_iff, known]
  by_cases same : x = w
  · subst same
    simp [member, unknown]
  · simp [same]

end Fresh

/-! ## Levels are distances -/

/-- Nothing is expanded, and only the start is found. -/
theorem Frontier.init (member : selection.isMember start) :
    Frontier selection graph start 0 [(start, 0)] where
  member := member
  start_mem := by simp
  position_le := Nat.zero_le _
  walk x mem := by
    rw [List.mem_singleton.1 mem]
    rfl
  distinct := by simp
  ascending := by simp
  near x _ y mem := by
    rw [List.mem_singleton.1 mem]
    exact Nat.zero_le _
  intact := by simp
  expanded := by simp
  level_le i h := by
    obtain rfl : i = 0 := by simpa using h
    exact Nat.le_refl _

namespace Frontier

variable (frontier : Frontier selection graph start position found)

include frontier

/-- Found points are members. -/
theorem member_of_mem {x : Nat × Nat} (mem : x ∈ found) : selection.isMember x.1 :=
  (frontier.walk x mem).reaches.isMember frontier.member

/-- A point has one level. -/
theorem level_unique {e : Nat} (mem : (p, d) ∈ found) (mem' : (p, e) ∈ found) : d = e := by
  have same := List.inj_on_of_nodup_map frontier.distinct mem mem' rfl
  exact (Prod.mk.inj same).2

/-- The levels to come are not below that at the position. -/
theorem level_le_of_mem_drop (h : position < found.length) {x : Nat × Nat}
    (mem : x ∈ found.drop position) : found[position].2 ≤ x.2 := by
  have ascending := frontier.ascending.sublist (List.drop_sublist position found)
  rw [List.drop_eq_getElem_cons h] at ascending mem
  rcases List.mem_cons.1 mem with rfl | later
  · exact Nat.le_refl _
  · exact (List.pairwise_cons.1 ascending).1 x later

/-- A walk that is no longer than the levels to come has found its end: the point before its last
step has a lower level than all to come, so it is expanded. -/
theorem found_of_walk {length v : Nat} (walk : selection.Walk graph length start v)
    (bound : ∀ x ∈ found.drop position, length ≤ x.2) :
    ∃ level ≤ length, (v, level) ∈ found := by
  induction length generalizing v with
  | zero =>
    rw [← show start = v from walk]
    exact ⟨0, Nat.le_refl _, frontier.start_mem⟩
  | succ length ih =>
    obtain ⟨u, before, step⟩ := walk
    obtain ⟨level, le, mem⟩ := ih before fun x later => Nat.le_of_succ_le (bound x later)
    rw [← List.take_append_drop position found, List.mem_append] at mem
    rcases mem with done | later
    · obtain ⟨next, next_le, found⟩ := frontier.expanded _ done v step
      exact ⟨next, by omega, found⟩
    · have := bound _ later
      omega

/-- **Levels are distances**, since a shorter walk would have found the point at a lower level. -/
theorem distance (mem : (p, d) ∈ found) : selection.Distance graph start p d := by
  refine ⟨frontier.walk _ mem, fun length walk => ?_⟩
  by_contra shorter
  rw [Nat.not_le] at shorter
  by_cases bound : ∀ x ∈ found.drop position, length ≤ x.2
  · obtain ⟨level, le, mem'⟩ := frontier.found_of_walk walk bound
    have := frontier.level_unique mem mem'
    omega
  · simp only [not_forall, Nat.not_le] at bound
    obtain ⟨x, later, lt⟩ := bound
    have := frontier.near x (List.drop_subset_drop_left found (Nat.sub_le _ _) later) _ mem
    omega

/-- When all points are expanded, what can be reached is found. -/
theorem mem_iff_reaches (done : found.length ≤ position) {v : Nat} :
    v ∈ found.map Prod.fst ↔ selection.Reaches graph start v := by
  constructor
  · intro mem
    obtain ⟨x, known, rfl⟩ := List.mem_map.1 mem
    exact (frontier.walk x known).reaches
  · intro path
    obtain ⟨length, walk⟩ := Selection.reaches_iff_walk.1 path
    obtain ⟨level, -, mem⟩ := frontier.found_of_walk walk (by simp [List.drop_of_length_le done])
    exact List.mem_map_of_mem mem

/-- No member that frays is at the end of a walk that is shorter than the level at the position. -/
theorem level_le_of_frays (h : position < found.length) {q length : Nat}
    (frays : selection.Frays graph q) (walk : selection.Walk graph length start q) :
    found[position].2 ≤ length := by
  by_contra shorter
  rw [Nat.not_le] at shorter
  have bound : ∀ x ∈ found.drop position, length < x.2 := fun x later =>
    Nat.lt_of_lt_of_le shorter (frontier.level_le_of_mem_drop h later)
  obtain ⟨level, le, mem⟩ :=
    frontier.found_of_walk walk fun x later => Nat.le_of_lt (bound x later)
  rw [← List.take_append_drop position found, List.mem_append] at mem
  rcases mem with done | later
  · exact frontier.intact _ done frays
  · have := bound _ later
    omega

/-- **A point at the position that frays is a nearest one.** -/
theorem nearest (h : position < found.length) (shape : found[position] = (p, d))
    (frays : selection.Frays graph p) :
    selection.Nearest graph start (selection.Frays graph) p := by
  refine ⟨frays, d, frontier.distance (shape ▸ List.getElem_mem h), fun q e frays' distance => ?_⟩
  have le := frontier.level_le_of_frays h frays' distance.1
  rwa [shape] at le

/-! ## Expanding a point -/

/-- **Expanding the point at the position** finds the fresh members of its row one level further
on. -/
theorem expand (h : position < found.length) (shape : found[position] = (p, d))
    (intact : ¬ selection.Frays graph p) {fresh : List Nat}
    (new : Fresh selection (Adjacency.row graph p) found fresh) :
    Frontier selection graph start (position + 1)
      (found ++ fresh.map fun w => (w, d + 1)) := by
  have mem : (p, d) ∈ found := shape ▸ List.getElem_mem h
  have top : ∀ y ∈ found, y.2 ≤ d + 1 :=
    frontier.near (p, d) (shape ▸ List.mem_drop_iff_getElem.2
      ⟨position - (position - 1), by omega, by congr 1; omega⟩)
  have source := frontier.member_of_mem mem
  have taken : (found ++ fresh.map fun w => (w, d + 1)).take (position + 1) =
      found.take position ++ [(p, d)] := by
    rw [List.take_append_of_le_length h, List.take_succ_eq_append_getElem h, shape]
  have dropped : (found ++ fresh.map fun w => (w, d + 1)).drop position =
      found.drop position ++ fresh.map fun w => (w, d + 1) :=
    List.drop_append_of_le_length (Nat.le_of_lt h)
  have level : ∀ {x}, x ∈ fresh.map (fun w => (w, d + 1)) → x.2 = d + 1 := by
    intro x mem
    obtain ⟨w, -, rfl⟩ := List.mem_map.1 mem
    rfl
  constructor
  case member => exact frontier.member
  case start_mem => exact List.mem_append_left _ frontier.start_mem
  case position_le =>
    rw [List.length_append]
    exact Nat.le_add_right_of_le h
  case walk =>
    intro x mem'
    rcases List.mem_append.1 mem' with old | added
    · exact frontier.walk x old
    · obtain ⟨w, isFresh, rfl⟩ := List.mem_map.1 added
      obtain ⟨inRow, member, -⟩ := (new.mem_iff w).1 isFresh
      exact ⟨p, frontier.walk _ mem, source, inRow, member⟩
  case distinct =>
    rw [List.map_append, List.map_map, List.nodup_append]
    refine ⟨frontier.distinct, by simpa [Function.comp_def] using new.distinct, ?_⟩
    rintro w old _ added rfl
    exact ((new.mem_iff w).1 (by simpa using added)).2.2 old
  case ascending =>
    refine List.pairwise_append.2 ⟨frontier.ascending, ?_, fun x old y added => ?_⟩
    · exact List.pairwise_of_forall_mem_list fun x hx y hy => by rw [level hx, level hy]
    · rw [level added]
      exact top x old
  case near =>
    intro x later y mem'
    rw [Nat.add_sub_cancel, dropped] at later
    have low : d ≤ x.2 := by
      rcases List.mem_append.1 later with old | added
      · have := frontier.level_le_of_mem_drop h old
        rwa [shape] at this
      · have := level added
        omega
    have high : y.2 ≤ d + 1 := by
      rcases List.mem_append.1 mem' with old | added
      · exact top y old
      · exact (level added).le
    omega
  case intact =>
    intro x mem'
    rw [taken, List.mem_append, List.mem_singleton] at mem'
    rcases mem' with before | rfl
    · exact frontier.intact x before
    · exact intact
  case expanded =>
    intro x mem' w step
    rw [taken, List.mem_append, List.mem_singleton] at mem'
    rcases mem' with before | rfl
    · obtain ⟨level, le, known⟩ := frontier.expanded x before w step
      exact ⟨level, le, List.mem_append_left _ known⟩
    · by_cases known : w ∈ found.map Prod.fst
      · obtain ⟨y, old, rfl⟩ := List.mem_map.1 known
        exact ⟨y.2, top y old, List.mem_append_left _ old⟩
      · have isFresh := (new.mem_iff w).2 ⟨step.neighbor, step.target, known⟩
        exact ⟨d + 1, Nat.le_refl _, List.mem_append_right _ (List.mem_map_of_mem isFresh)⟩
  case level_le =>
    intro i hi
    rcases Nat.lt_or_ge i found.length with old | added
    · rw [List.getElem_append_left old]
      exact frontier.level_le i old
    · have low := frontier.level_le position h
      rw [List.getElem_append_right added, List.getElem_map]
      rw [shape] at low
      show d + 1 ≤ i
      omega

end Frontier

end Navigability.Reach
