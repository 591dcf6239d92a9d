import Navigability.Proofs.Component.Listing
import Navigability.Proofs.Reach.Coverage
import Navigability.Proofs.Selection.Reordering
import Navigability.Proofs.Workspace.History

/-!
# The order of a row does not show

The analyses read the rows in the order in which the graph holds them, and on two graphs whose rows
are ordered differently they enter the points in different orders. What they return is a matter of
steps, paths and distances alone, which have no order. A measurement returns the same coverage if
the rows of the members are reordered; the other analyses return the same also if repetitions are
added or taken away: the components as sets, and what is reached as it is. The failures may differ
in the number that they name, which is the first in a row, but not in whether there is one.

## Main results

* `analyses_of_reordered`: the answers of the analyses on two graphs with the same neighbors
-/

namespace Navigability

open Component Reach

variable {γ δ : Type} [Adjacency γ] [Adjacency δ] {selection : Selection} {graph : γ} {graph' : δ}

/-- **The order of a row does not show.** In workspaces that any tasks have used, a measurement
under any policy succeeds on both graphs with one coverage or on neither, if the rows of the members
are reordered. If they have the same elements, repeated any number of times, then the search for
components succeeds on both or on neither, with the same components as sets, and from every point
the same is reached in both or in neither. -/
theorem analyses_of_reordered [Memory] (selection : Selection) (graph : γ) (graph' : δ)
    (small : selection.pointCount < pointLimit) (before before' : List Task) :
    (selection.Reordered graph graph' → ∀ policy coverage,
      ((Workspace.after before).coverage selection graph policy).result = .ok coverage ↔
        ((Workspace.after before').coverage selection graph' policy).result = .ok coverage) ∧
    (selection.SameNeighbors graph graph' →
      ((∃ listing, ((Workspace.after before).components selection graph).result = .ok listing) ↔
        ∃ listing, ((Workspace.after before').components selection graph').result =
          .ok listing) ∧
      (∀ listing listing',
        ((Workspace.after before).components selection graph).result = .ok listing →
        ((Workspace.after before').components selection graph').result = .ok listing' →
        listing.classes = listing'.classes) ∧
      ∀ start points,
        ((Workspace.after before).reach selection graph start).result = .ok points ↔
          ((Workspace.after before').reach selection graph' start).result = .ok points) := by
  obtain ⟨n, -, ready⟩ := Workspace.exists_ready before
  obtain ⟨n', -, ready'⟩ := Workspace.exists_ready before'
  constructor
  · intro reordered policy coverage
    show (selection.coverage graph policy (Workspace.after before).visits).result = _ ↔
      (selection.coverage graph' policy (Workspace.after before').visits).result = _
    rw [coverage_eq_ok_iff small, coverage_eq_ok_iff small, reordered.coverageOf_eq,
      reordered.sameNeighbors.frays_eq]
  · intro same
    refine ⟨?_, fun listing listing' ok ok' => ?_, fun start points => ?_⟩
    · show (∃ listing, (selection.components graph (Workspace.after before).search).result = _) ↔
        ∃ listing, (selection.components graph' (Workspace.after before').search).result = _
      rw [components_succeeds_iff graph small, components_succeeds_iff graph' small, same.frays_eq]
    · rw [Listing.classes_eq_of_ok small ok, Listing.classes_eq_of_ok small ok', same.reaches_eq]
    · show (selection.reach graph start (Workspace.after before).visits).result = _ ↔
        (selection.reach graph' start (Workspace.after before').visits).result = _
      rw [reach_eq_ok_iff ready small, reach_eq_ok_iff ready' small, same.reachable_eq,
        same.reaches_eq, same.frays_eq]

/-- The two cycles with the rows in another order, repetitions in other places, and a row beside
them that frays. -/
def reorderedCycles : RowGraph := .ofRows [[0, 1, 2], [3, 0, 0], [9], [4, 4], [4, 3]]

/-- The fork with one row in another order. -/
def reorderedFork : RowGraph := .ofRows [[3, 1, 1], [2], [], [], [1]]

theorem reordered_twoCycles :
    onFork.pointCount < pointLimit ∧ onCycles.pointCount < pointLimit ∧
    onFork.Reordered fork reorderedFork ∧
    ((Workspace.after [.strayed]).coverage onFork reorderedFork
      { entryCount := 2, tie := .highestFirst }).result =
        .ok ⟨"fork", 4, [⟨0, 2, 3, 2⟩, ⟨4, 1, 3, 2⟩], 4⟩ ∧
    onCycles.SameNeighbors twoCycles reorderedCycles ∧
    (∃ listing, ((Workspace.after []).components onCycles reorderedCycles).result = .ok listing ∧
      (⟨"cycles", 4, [[4, 3], [1, 0]]⟩ : Listing).classes = listing.classes) ∧
    ∃ points, ((Workspace.after [.strayed]).reach onCycles twoCycles 3).result = .ok points ∧
      ((Workspace.after []).reach onCycles reorderedCycles 3).result = .ok points := by
  have small : onFork.pointCount < pointLimit := by decide
  have small' : onCycles.pointCount < pointLimit := by decide
  have permuted : ∀ p ∈ onFork.members,
      (Adjacency.row fork p).Perm (Adjacency.row reorderedFork p) := by decide
  have reordered : onFork.Reordered fork reorderedFork :=
    fun p member => permuted p (Selection.mem_members_iff.2 member)
  have there : ∀ p ∈ onCycles.members, ∀ w ∈ Adjacency.row twoCycles p,
      w ∈ Adjacency.row reorderedCycles p := by decide
  have back : ∀ p ∈ onCycles.members, ∀ w ∈ Adjacency.row reorderedCycles p,
      w ∈ Adjacency.row twoCycles p := by decide
  have same : onCycles.SameNeighbors twoCycles reorderedCycles := fun p member w =>
    ⟨there p (Selection.mem_members_iff.2 member) w, back p (Selection.mem_members_iff.2 member) w⟩
  obtain ⟨coverage, -⟩ := analyses_of_reordered onFork fork reorderedFork small [] [.strayed]
  obtain ⟨-, rest⟩ := analyses_of_reordered onCycles twoCycles reorderedCycles small' [.strayed] []
  obtain ⟨succeeds, classes, reach⟩ := rest same
  have ok : ((Workspace.after [.strayed]).components onCycles twoCycles).result =
      .ok ⟨"cycles", 4, [[4, 3], [1, 0]]⟩ := components_twoCycles _
  have intact := (components_succeeds_iff twoCycles small' _).1 ⟨_, ok⟩
  obtain ⟨n, -, ready⟩ := Workspace.exists_ready [.strayed]
  have member : onCycles.isMember 3 := rfl
  have found := reach_of_intact ready small' member fun v _ => intact v
  obtain ⟨listing, ok'⟩ := succeeds.1 ⟨_, ok⟩
  refine ⟨small, small', reordered, (coverage reordered _ _).1 ?_, same,
    ⟨listing, ok', classes _ _ ok ok'⟩, _, found, (reach 3 _).1 found⟩
  decide +kernel

end Navigability
