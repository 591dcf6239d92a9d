import Mathlib.Data.List.Sort
import Mathlib.Data.Set.Card
import Mathlib.Data.Set.Finite.Lattice
import Mathlib.Order.Lattice.Nat
import Navigability.Proofs.Reach.Itinerary

/-!
# What can be reached

What a traversal returns, said without traversals: the members that paths lead to, how many they
are, and the greatest of their distances. None of it depends on the order of a row.

## Main definitions

* `Selection.reachable graph u`: the members that can be reached from `u`, in ascending order
* `Selection.eccentricity graph u`: the greatest distance of a point from `u`

## Main results

* `Selection.isGreatest_eccentricity`: there is a greatest distance
* `traverse_of_intact`, `traverse_of_frays`: what a traversal returns
* `reach_of_intact`, `reach_of_frays`: what is returned from a member
* `reach_eq_ok_iff`: from which points what can be reached is returned
-/

namespace Navigability

namespace Selection

variable {γ : Type} [Adjacency γ]

open Classical in
/-- The members that can be reached from a point, in ascending order. -/
noncomputable def reachable (selection : Selection) (graph : γ) (u : Nat) : List Nat :=
  selection.members.filter fun v => selection.Reaches graph u v

/-- The greatest distance of a point from a point. -/
noncomputable def eccentricity (selection : Selection) (graph : γ) (u : Nat) : Nat :=
  sSup {d | ∃ v, selection.Distance graph u v d}

variable {selection : Selection} {graph : γ} {u v : Nat}

theorem reachable_ascending (selection : Selection) (graph : γ) (u : Nat) :
    (selection.reachable graph u).Pairwise (· < ·) :=
  selection.members_ascending.filter _

theorem reachable_nodup (selection : Selection) (graph : γ) (u : Nat) :
    (selection.reachable graph u).Nodup :=
  selection.members_nodup.filter _

theorem mem_reachable_iff (member : selection.isMember u) :
    v ∈ selection.reachable graph u ↔ selection.Reaches graph u v := by
  simp only [reachable, List.mem_filter, mem_members_iff, decide_eq_true_eq]
  exact ⟨And.right, fun path => ⟨path.isMember member, path⟩⟩

/-- What can be reached, listed in any order, is sorted into its ascending order. -/
theorem mergeSort_eq_reachable {points : List Nat}
    (listed : points.Perm (selection.reachable graph u)) :
    points.mergeSort = selection.reachable graph u := by
  refine ((List.mergeSort_perm ..).trans listed).eq_of_pairwise'
    (List.pairwise_mergeSort' (· ≤ ·) _) ?_
  exact (selection.reachable_ascending graph u).imp Nat.le_of_lt

/-- The same points are reached from two members when each of them is reached from the other. -/
theorem reachable_eq_iff (hu : selection.isMember u) (hv : selection.isMember v) :
    selection.reachable graph u = selection.reachable graph v ↔
      v ∈ selection.reachable graph u ∧ u ∈ selection.reachable graph v := by
  have here : ∀ {w}, selection.isMember w → w ∈ selection.reachable graph w := fun member =>
    (mem_reachable_iff member).2 .refl
  constructor
  · intro same
    exact ⟨same ▸ here hv, same ▸ here hu⟩
  · rintro ⟨there, back⟩
    rw [mem_reachable_iff hu] at there
    rw [mem_reachable_iff hv] at back
    have same : ∀ w, selection.Reaches graph u w ↔ selection.Reaches graph v w :=
      fun w => ⟨back.trans, there.trans⟩
    refine List.filter_congr fun w _ => ?_
    rw [decide_eq_decide, same w]

theorem finite_reaches (graph : γ) (member : selection.isMember u) :
    {v | selection.Reaches graph u v}.Finite :=
  (List.finite_toSet selection.members).subset fun _ path =>
    mem_members_iff.2 (Reaches.isMember path member)

/-- There is a greatest distance, since each of the members that can be reached has one. -/
theorem isGreatest_eccentricity (graph : γ) (member : selection.isMember u) :
    IsGreatest {d | ∃ v, selection.Distance graph u v d} (selection.eccentricity graph u) := by
  have finite : {d | ∃ v, selection.Distance graph u v d}.Finite := by
    have distances : {d | ∃ v, selection.Distance graph u v d} ⊆
        ⋃ v ∈ {v | selection.Reaches graph u v}, {d | selection.Distance graph u v d} := by
      rintro d ⟨v, distance⟩
      exact Set.mem_biUnion distance.reaches distance
    refine ((finite_reaches graph member).biUnion fun v _ => ?_).subset distances
    exact Set.Subsingleton.finite fun d least e least' => IsLeast.unique least least'
  have here : selection.Reaches graph u u := .refl
  obtain ⟨d, distance⟩ := here.exists_distance
  exact ⟨Nat.sSup_mem ⟨d, u, distance⟩ finite.bddAbove,
    fun d mem => le_csSup finite.bddAbove mem⟩

end Selection

namespace Reach

open Attempt

variable {γ : Type} [Adjacency γ] {selection : Selection} {graph : γ} {start n : Nat} {b : Buffers}

/-! ## Traversals -/

section Traverse

variable (ready : b.Ready selection.pointCount) (small : selection.pointCount < pointLimit)
  (member : selection.isMember start)

include ready small member

/-- **A traversal that meets no row that frays** returns the greatest distance, and has visited what
can be reached. -/
theorem traverse_of_intact
    (intact : ∀ v, selection.Reaches graph start v → ¬ selection.Frays graph v) :
    ∃ b', traverse selection graph start b = .ok (selection.eccentricity graph start) b' ∧
      b'.Sound selection.pointCount ∧ b'.visited.Perm (selection.reachable graph start) := by
  have ends := traverse_ends graph ready small member
  generalize traverse selection graph start b = result at ends
  cases ends with
  | @done depth b' sound frontier attained bound =>
    have found : ∀ v, v ∈ b'.found.map Prod.fst ↔ selection.Reaches graph start v := fun v =>
      frontier.mem_iff_reaches (Nat.le_refl _)
    have greatest : IsGreatest {d | ∃ v, selection.Distance graph start v d} depth := by
      constructor
      · obtain ⟨x, mem, rfl⟩ := attained
        exact ⟨x.1, frontier.distance mem⟩
      · rintro d ⟨v, distance⟩
        obtain ⟨x, mem, rfl⟩ := List.mem_map.1 ((found v).2 distance.reaches)
        rw [distance.unique (frontier.distance mem)]
        exact bound x mem
    refine ⟨b', ?_, sound, ?_⟩
    · rw [greatest.unique (Selection.isGreatest_eccentricity graph member)]
    · rw [Buffers.visited_eq, List.perm_ext_iff_of_nodup sound.distinct
        (selection.reachable_nodup graph start)]
      intro v
      rw [found, Selection.mem_reachable_iff member]
  | strayed sound strays nearest => exact absurd strays.frays (intact _ nearest.reaches)

/-- **A traversal that meets rows that fray** is stopped by a nearest one. -/
theorem traverse_of_frays
    (frays : ∃ v, selection.Reaches graph start v ∧ selection.Frays graph v) :
    ∃ p w b', traverse selection graph start b =
        .error (.neighborOutOfRange p w selection.pointCount) b' ∧
      selection.Strays graph p w ∧
      selection.Nearest graph start (selection.Frays graph) p := by
  have ends := traverse_ends graph ready small member
  generalize traverse selection graph start b = result at ends
  cases ends with
  | @done depth b' sound frontier =>
    obtain ⟨v, path, frays⟩ := frays
    obtain ⟨x, mem, rfl⟩ := List.mem_map.1 ((frontier.mem_iff_reaches (Nat.le_refl _)).2 path)
    exact absurd frays (frontier.intact x (by rwa [List.take_length]))
  | strayed sound strays nearest => exact ⟨_, _, _, rfl, strays, nearest⟩

end Traverse

/-! ## What is returned from a member -/

section Reach

variable (ready : b.Ready n) (small : selection.pointCount < pointLimit)
  (member : selection.isMember start)

include ready small member

theorem reach_of_intact
    (intact : ∀ v, selection.Reaches graph start v → ¬ selection.Frays graph v) :
    (selection.reach graph start b).result = .ok (selection.reachable graph start) := by
  obtain ⟨c, ready, ran⟩ := reached_member graph member small ready
  obtain ⟨d, traversed, -, visited⟩ := traverse_of_intact ready small member intact
  have got : (get : Attempt Buffers Buffers) d = .ok d d := rfl
  rw [bind_of_ok traversed, bind_of_ok got, Selection.mergeSort_eq_reachable visited] at ran
  rw [Selection.reach, ran]
  rfl

theorem reach_of_frays
    (frays : ∃ v, selection.Reaches graph start v ∧ selection.Frays graph v) :
    ∃ p w, (selection.reach graph start b).result =
        .error (.neighborOutOfRange p w selection.pointCount) ∧
      selection.Strays graph p w ∧
      selection.Nearest graph start (selection.Frays graph) p := by
  obtain ⟨c, ready, ran⟩ := reached_member graph member small ready
  obtain ⟨p, w, d, traversed, strays, nearest⟩ := traverse_of_frays ready small member frays
  rw [bind_of_error traversed] at ran
  exact ⟨p, w, by rw [Selection.reach, ran], strays, nearest⟩

end Reach

/-- **What can be reached is returned** from a point: from a member, if no row that is reached
frays; and nothing from any other point. -/
theorem reach_eq_ok_iff (ready : b.Ready n) (small : selection.pointCount < pointLimit)
    {points : List Nat} : (selection.reach graph start b).result = .ok points ↔
      start < selection.pointCount ∧
        if selection.isMember start then points = selection.reachable graph start ∧
          ∀ v, selection.Reaches graph start v → ¬ selection.Frays graph v
        else points = [] := by
  by_cases member : selection.isMember start
  · rw [if_pos member, and_iff_right (Selection.lt_of_isMember member)]
    by_cases frays : ∃ v, selection.Reaches graph start v ∧ selection.Frays graph v
    · obtain ⟨p, w, failed, strays, nearest⟩ := reach_of_frays ready small member frays
      rw [failed]
      refine iff_of_false (by simp) ?_
      rintro ⟨-, intact⟩
      exact intact p nearest.reaches strays.frays
    · have intact : ∀ v, selection.Reaches graph start v → ¬ selection.Frays graph v :=
        fun v path fray => frays ⟨v, path, fray⟩
      rw [reach_of_intact ready small member intact, Except.ok.injEq, eq_comm]
      exact (and_iff_left intact).symm
  · rw [if_neg member, Selection.reach]
    rcases Nat.lt_or_ge start selection.pointCount with inside | outside
    · rw [reached_not_member graph inside member, Except.ok.injEq, eq_comm]
      exact (and_iff_right inside).symm
    · rw [reached_outside graph outside]
      refine iff_of_false (by simp) ?_
      rintro ⟨inside, -⟩
      exact Nat.not_lt.2 outside inside

end Reach

end Navigability
