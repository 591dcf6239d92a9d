import Navigability.Proofs.Component.Copy
import Navigability.Proofs.Reach.Copy
import Navigability.Proofs.Reach.Coverage
import Navigability.Proofs.Workspace.History

/-!
# Selecting is taking the induced graph

The analyses never build the graph on the members alone: they look at each entry of a row as they
come to it, and pass over those that are no members. What they return is nevertheless what they
return on that graph, in which the members are numbered from zero in ascending order and all points
are selected, with the points renamed back.

## Main definitions

* `Selection.memberAt i`, `Selection.rank p`: the members and their numbers
* `Selection.whole`, `Selection.induced graph`: the selection of all members, in the graph on them

## Main results

* `Selection.copies_induced`: the induced graph is a copy
* `analyses_of_induced`: the answers of the analyses in the induced graph
-/

namespace Navigability

namespace Selection

variable {γ : Type} [Adjacency γ]

/-- The member with a number, in ascending order from zero. -/
def memberAt (selection : Selection) (i : Nat) : Nat := selection.members.getD i 0

/-- The number of a member. -/
def rank (selection : Selection) (p : Nat) : Nat := selection.members.idxOf p

/-- The selection of all of as many points as there are members. -/
def whole (selection : Selection) : Selection where
  label := selection.label
  flags := Array.replicate selection.memberCount true

/-- The graph on the members: the row of each is its row without the points that are no members,
all of them given by their numbers. -/
def induced (selection : Selection) (graph : γ) : RowGraph :=
  .ofRows (selection.members.map fun p =>
    ((Adjacency.row graph p).filter selection.isMember).map selection.rank)

variable {selection : Selection} {graph : γ} {i p : Nat}

/-! ## Members and their numbers -/

theorem memberAt_eq (h : i < selection.members.length) :
    selection.memberAt i = selection.members[i] := by
  simp [memberAt, h]

theorem members_eq_map (selection : Selection) :
    selection.members = (List.range selection.memberCount).map selection.memberAt := by
  apply List.ext_getElem
  · simp [length_members]
  · intro i h _
    simp [memberAt_eq h]

theorem rank_lt (member : selection.isMember p) : selection.rank p < selection.memberCount := by
  rw [← length_members]
  exact List.idxOf_lt_length_of_mem (mem_members_iff.2 member)

theorem memberAt_rank (member : selection.isMember p) :
    selection.memberAt (selection.rank p) = p := by
  have h : selection.rank p < selection.members.length := by
    rw [length_members]
    exact rank_lt member
  rw [memberAt_eq h]
  exact List.getElem_idxOf h

theorem isMember_whole : selection.whole.isMember i ↔ i < selection.memberCount := by
  rw [isMember, whole, Array.getD_eq_getD_getElem?, Array.getElem?_replicate]
  split <;> simp [*]

theorem pointCount_whole : selection.whole.pointCount = selection.memberCount := by
  simp [whole, pointCount]

theorem members_whole : selection.whole.members = List.range selection.memberCount := by
  rw [members, pointCount_whole, List.filter_eq_self]
  exact fun i mem => isMember_whole.2 (List.mem_range.1 mem)

/-! ## The induced graph -/

theorem row_induced (h : i < selection.memberCount) :
    Adjacency.row (selection.induced graph) i =
      ((Adjacency.row graph (selection.memberAt i)).filter selection.isMember).map
        selection.rank := by
  have h : i < selection.members.length := by rwa [length_members]
  simp [induced, memberAt_eq h, List.getD_eq_getElem?_getD, h]

theorem lt_of_mem_induced (h : i < selection.memberCount)
    (mem : p ∈ Adjacency.row (selection.induced graph) i) : p < selection.memberCount := by
  rw [row_induced h, List.mem_map] at mem
  obtain ⟨w, mem, rfl⟩ := mem
  exact rank_lt (List.mem_filter.1 mem).2

theorem not_frays_induced (selection : Selection) (graph : γ) (p : Nat) :
    ¬ selection.whole.Frays (selection.induced graph) p := by
  rintro ⟨member, w, mem, outside⟩
  rw [pointCount_whole] at outside
  exact Nat.not_lt.2 outside (lt_of_mem_induced (isMember_whole.1 member) mem)

/-- **The induced graph** is a copy. -/
theorem copies_induced (selection : Selection) (graph : γ) :
    Copies selection.whole (selection.induced graph) selection graph selection.memberAt where
  label := rfl
  members := by rw [members_whole, ← members_eq_map]
  rows i member := by
    have h := isMember_whole.1 member
    have all : (Adjacency.row (selection.induced graph) i).filter selection.whole.isMember =
        Adjacency.row (selection.induced graph) i :=
      List.filter_eq_self.2 fun p mem => isMember_whole.2 (lt_of_mem_induced h mem)
    have back : ∀ w ∈ (Adjacency.row graph (selection.memberAt i)).filter selection.isMember,
        (selection.memberAt ∘ selection.rank) w = id w :=
      fun w mem => memberAt_rank (List.mem_filter.1 mem).2
    rw [all, row_induced h, List.map_map, List.map_congr_left back, List.map_id]

end Selection

/-! ## The analyses -/

/-- **Selecting is taking the induced graph.** If the rows of the members name points only, the
components, the coverage under every policy and what is reached from a member are what they are in
the induced graph with all points selected, with the points renamed back to the members and all
else equal, in workspaces that any tasks have used. A measurement that is not given the room that it
asks for ends so in both. -/
theorem analyses_of_induced [Memory] {γ : Type} [Adjacency γ] (selection : Selection) (graph : γ)
    (small : selection.pointCount < pointLimit)
    (inside : ∀ p, selection.isMember p → ∀ w ∈ Adjacency.row graph p, w < selection.pointCount)
    (before before' : List Task) :
    (∃ listing,
      ((Workspace.after before').components selection.whole (selection.induced graph)).result =
        .ok listing ∧
      ((Workspace.after before).components selection graph).result =
        .ok (listing.rename selection.memberAt)) ∧
    (∀ policy,
      ((Workspace.after before).coverage selection graph policy).result =
        ((Workspace.after before').coverage selection.whole (selection.induced graph)
          policy).result.map (Reach.Coverage.rename selection.memberAt) ∧
      (Reach.Granted selection policy → ∃ coverage,
        ((Workspace.after before').coverage selection.whole (selection.induced graph)
          policy).result = .ok coverage)) ∧
    ∀ i < selection.memberCount, ∃ points,
      ((Workspace.after before').reach selection.whole (selection.induced graph) i).result =
        .ok points ∧
      ((Workspace.after before).reach selection graph (selection.memberAt i)).result =
        .ok (points.map selection.memberAt) := by
  have copies := selection.copies_induced graph
  have intact' := selection.not_frays_induced graph
  have intact := Selection.not_frays_of_inside inside
  have small' : selection.whole.pointCount < pointLimit := by
    rw [Selection.pointCount_whole]
    exact Array.count_le_size.trans_lt small
  obtain ⟨n, -, ready⟩ := Workspace.exists_ready before
  obtain ⟨n', -, ready'⟩ := Workspace.exists_ready before'
  refine ⟨Component.components_renamed copies intact intact' small small' _ _,
    fun policy => ⟨copies.coverage_renamed intact intact' small small' policy _ _, fun granted =>
      ⟨selection.whole.coverageOf (selection.induced graph) policy, ?_⟩⟩,
    fun i h => ⟨selection.whole.reachable (selection.induced graph) i, ?_, ?_⟩⟩
  · exact Reach.coverage_of_intact ((copies.granted_iff policy).1 granted) small' intact'
      (Workspace.after before').visits
  · exact Reach.reach_of_intact ready' small' (Selection.isMember_whole.2 h) fun v _ => intact' v
  · have member := Selection.isMember_whole.2 h
    rw [← copies.reachable_eq member]
    exact Reach.reach_of_intact ready small (copies.isMember member) fun v _ => intact v

example : Reach.onFork.induced Reach.fork = .ofRows [[1, 1], [2], [], [1]] := rfl

theorem induced_fork :
    Reach.onFork.pointCount < pointLimit ∧
    (∀ p, Reach.onFork.isMember p → ∀ w ∈ Adjacency.row Reach.fork p,
      w < Reach.onFork.pointCount) ∧
    ∃ points,
      ((Workspace.after []).reach Reach.onFork.whole (Reach.onFork.induced Reach.fork) 3).result =
        .ok points ∧
      ((Workspace.after [.strayed]).reach Reach.onFork Reach.fork 4).result =
        .ok (points.map Reach.onFork.memberAt) := by
  have small : Reach.onFork.pointCount < pointLimit := by decide
  have listed : ∀ p ∈ Reach.onFork.members, ∀ w ∈ Adjacency.row Reach.fork p,
      w < Reach.onFork.pointCount := by decide
  have inside := fun p member => listed p (Selection.mem_members_iff.2 member)
  obtain ⟨-, -, reach⟩ := analyses_of_induced Reach.onFork Reach.fork small inside [.strayed] []
  exact ⟨small, inside, reach 3 (by decide)⟩

end Navigability
