import Navigability.Proofs.Component.Listing
import Navigability.Proofs.Reach.Coverage
import Navigability.Proofs.Workspace.History

/-!
# Components and traversals agree

The search for components and the traversals know nothing of each other, but both speak about the
same paths. Two members are in one component when each of them is reached from the other, and then
the same points are reached from both. What is reached from a member is made up of whole components
that come out no later than its own, so all that a measurement counts is a sum of sizes of
components.

## Main definitions

* `Consistent`: components and what is reached from the members, side by side
* `Reach.Coverage.Whole`: a coverage that counts whole components

## Main results

* `consistent_reachable`, `coverageOf_whole`: what is reached, in terms of a sound listing
* `analyses_agree`: the answers of all analyses, where the search for components succeeds
-/

namespace Navigability

open Component Reach

variable {γ : Type} [Adjacency γ] {selection : Selection} {graph : γ} {listing : Listing}

/-- Components and what is reached from the members agree: on which members belong together, and on
what is reached, which is a disjoint union of components no later than that of the start. -/
structure Consistent (selection : Selection) (listing : Listing) (reached : Nat → List Nat) :
    Prop where
  index_eq_iff : ∀ u v, selection.isMember u → selection.isMember v →
    ((listing.indices selection.pointCount)[u]? = (listing.indices selection.pointCount)[v]? ↔
      v ∈ reached u ∧ u ∈ reached v)
  reached_eq_iff : ∀ u v, selection.isMember u → selection.isMember v →
    (reached u = reached v ↔ v ∈ reached u ∧ u ∈ reached v)
  whole : ∀ u, selection.isMember u → ∃ (i : Nat) (part : List (List Nat)),
    (listing.indices selection.pointCount)[u]? = some (some i) ∧
    part.Sublist (listing.components.take (i + 1)) ∧ part.flatten.Nodup ∧
    (reached u).Perm part.flatten

/-- A coverage counts whole components. Where there is one component only, it counts all members at
every entry point and in total. -/
structure Reach.Coverage.Whole (selection : Selection) (listing : Listing)
    (reached : Nat → List Nat) (policy : Policy) (coverage : Coverage) : Prop where
  entries : ∀ e ∈ coverage.entries, selection.isMember e.point ∧
    ∃ part : List (List Nat), part.Sublist listing.components ∧
      (reached e.point).Perm part.flatten ∧ e.reached = (part.map List.length).sum
  covered : ∃ part : List (List Nat), part.Sublist listing.components ∧
    (∀ p, p ∈ part.flatten ↔ ∃ e ∈ coverage.entries, p ∈ reached e.point) ∧
    coverage.covered = (part.map List.length).sum
  single : listing.components.length = 1 → 1 ≤ policy.entryCount →
    coverage.covered = coverage.memberCount ∧
    ∀ e ∈ coverage.entries, e.reached = coverage.memberCount

namespace Component.Listing.Sound

variable (sound : listing.Sound selection graph) {u v : Nat}

include sound

/-- A part of the components has no point twice. -/
theorem nodup_of_sublist {part : List (List Nat)} (sublist : part.Sublist listing.components) :
    part.flatten.Nodup :=
  sound.nodup.sublist sublist.flatten

/-- **What is reached from a member** is made up of components no later than its own. -/
theorem reachable_part (member : selection.isMember u) : ∃ (i : Nat) (part : List (List Nat)),
    (listing.indices selection.pointCount)[u]? = some (some i) ∧
    part.Sublist (listing.components.take (i + 1)) ∧ part.flatten.Nodup ∧
    (selection.reachable graph u).Perm part.flatten := by
  obtain ⟨i, hi, marked, mem⟩ := sound.exists_index member
  obtain ⟨part, sublist, mem_iff⟩ := sound.exists_part
    (selection.Reaches graph u) (fun _ _ => Relation.ReflTransGen.trans)
    fun j hj v mem' path => Nat.lt_succ_of_le (sound.position_le hi hj mem mem' path)
  have nodup := sound.nodup_of_sublist (sublist.trans (List.take_sublist ..))
  refine ⟨i, part, marked, sublist, nodup, ?_⟩
  rw [List.perm_ext_iff_of_nodup (selection.reachable_nodup graph u) nodup]
  intro v
  rw [mem_iff, Selection.mem_reachable_iff member]
  exact ⟨fun path => ⟨path.isMember member, path⟩, And.right⟩

/-- **What is reached from any of some entry points** is made up of components. -/
theorem union_part {best : List Entry.Candidate}
    (members : ∀ c ∈ best, selection.isMember c.point) :
    ∃ part : List (List Nat), part.Sublist listing.components ∧
      (∀ p, p ∈ part.flatten ↔ p ∈ selection.union graph best) ∧
      (selection.union graph best).ncard = (part.map List.length).sum := by
  obtain ⟨part, sublist, mem_iff⟩ := sound.exists_part (· ∈ selection.union graph best)
    (fun u v ⟨c, mem, path⟩ step => ⟨c, mem, path.trans step⟩) fun j hj _ _ _ => hj
  rw [List.take_length] at sublist
  have same : ∀ p, p ∈ part.flatten ↔ p ∈ selection.union graph best := fun p =>
    (mem_iff p).trans (and_iff_right_of_imp (Selection.isMember_of_mem_union members))
  refine ⟨part, sublist, same, ?_⟩
  rw [← List.length_flatten]
  exact Selection.ncard_eq_length (sound.nodup_of_sublist sublist) fun p => (same p).symm

/-- Where there is one component only, all members are reached from each. -/
theorem reachable_of_single (single : listing.components.length = 1)
    (hu : selection.isMember u) : selection.reachable graph u = selection.members := by
  rw [Selection.reachable, List.filter_eq_self]
  intro v hv
  simp only [decide_eq_true_eq]
  obtain ⟨i, hi, -, mem⟩ := sound.exists_index hu
  obtain ⟨j, hj, -, mem'⟩ := sound.exists_index (Selection.mem_members_iff.1 hv)
  obtain rfl : i = j := by omega
  exact sound.mutual_paths _ (List.getElem_mem hi) u mem v mem'

/-- **What is reached** agrees with a sound listing. -/
theorem consistent_reachable : Consistent selection listing (selection.reachable graph) where
  index_eq_iff u v hu hv := by
    rw [sound.index_eq_iff hu hv, Selection.mem_reachable_iff hu, Selection.mem_reachable_iff hv]
  reached_eq_iff u v hu hv := Selection.reachable_eq_iff hu hv
  whole u member := sound.reachable_part member

/-- **A coverage** counts whole components. -/
theorem coverageOf_whole (policy : Policy) : (selection.coverageOf graph policy).Whole selection
    listing (selection.reachable graph) policy := by
  have entries : (selection.coverageOf graph policy).entries =
      (selection.entryPoints graph policy).map (selection.entryReach graph) := rfl
  have members : ∀ c ∈ selection.entryPoints graph policy, selection.isMember c.point :=
    fun _ => Selection.isMember_of_mem_entryPoints
  constructor
  · rw [entries, List.forall_mem_map]
    intro c mem
    obtain ⟨i, part, -, sublist, -, perm⟩ := sound.reachable_part (members c mem)
    refine ⟨members c mem, part, sublist.trans (List.take_sublist ..), perm, ?_⟩
    rw [← List.length_flatten, ← perm.length_eq]
    rfl
  · obtain ⟨part, sublist, mem_iff, size⟩ := sound.union_part members
    refine ⟨part, sublist, fun p => ?_, size⟩
    rw [mem_iff, Selection.mem_union_iff members, entries]
    simp [Selection.entryReach]
  · intro single wanted
    have count : (selection.coverageOf graph policy).memberCount = selection.members.length :=
      selection.length_members.symm
    have all : ∀ c ∈ selection.entryPoints graph policy,
        selection.reachable graph c.point = selection.members := fun c mem =>
      sound.reachable_of_single single (members c mem)
    rw [count]
    constructor
    · refine Selection.ncard_eq_length selection.members_nodup fun p => ?_
      rw [Selection.mem_union_iff members]
      constructor
      · rintro ⟨c, mem, reached⟩
        exact all c mem ▸ reached
      · intro mem
        have nonempty : 0 < (selection.entryPoints graph policy).length := by
          have positive := List.length_pos_of_mem mem
          rw [Selection.length_members] at positive
          rw [Selection.length_entryPoints]
          omega
        have entry := List.getElem_mem nonempty
        exact ⟨_, entry, all _ entry ▸ mem⟩
    · rw [entries, List.forall_mem_map]
      intro c mem
      rw [← all c mem]
      rfl

end Component.Listing.Sound

/-! ## All analyses -/

/-- **The analyses agree.** Where the search for components succeeds, so do traversals from all
members, and measurements that are given the room that they ask for, in a workspace that any tasks
have used, and their answers agree with the components. -/
theorem analyses_agree [Memory] (graph : γ) (small : selection.pointCount < pointLimit)
    {buffers : Component.Buffers}
    (ok : (selection.components graph buffers).result = .ok listing) :
    ∃ reached : Nat → List Nat,
      (∀ before u, selection.isMember u →
        ((Workspace.after before).reach selection graph u).result = .ok (reached u)) ∧
      Consistent selection listing reached ∧
      ∀ before policy,
        (Granted selection policy → ∃ coverage,
          ((Workspace.after before).coverage selection graph policy).result = .ok coverage) ∧
        ∀ coverage,
          ((Workspace.after before).coverage selection graph policy).result = .ok coverage →
          coverage.Whole selection listing reached policy := by
  have sound := Listing.sound_of_ok small ok
  refine ⟨selection.reachable graph, fun before u member => ?_, sound.consistent_reachable,
    fun before policy =>
      ⟨fun granted => ⟨selection.coverageOf graph policy, ?_⟩, fun coverage found => ?_⟩⟩
  · obtain ⟨n, -, ready⟩ := Workspace.exists_ready before
    exact Reach.reach_of_intact ready small member fun v _ => sound.intact v
  · exact Reach.coverage_of_intact granted small sound.intact (Workspace.after before).visits
  · obtain ⟨rfl, -⟩ := (coverage_eq_ok_iff small (Workspace.after before).visits).1 found
    exact sound.coverageOf_whole policy

/-- What is reached from the component that comes out first is that component. -/
theorem agreement_twoCycles :
    onCycles.pointCount < pointLimit ∧
    (onCycles.components twoCycles {}).result = .ok ⟨"cycles", 4, [[4, 3], [1, 0]]⟩ ∧
    ∃ reached : Nat → List Nat,
      ((Workspace.after [.strayed]).reach onCycles twoCycles 3).result = .ok (reached 3) ∧
      reached 3 = reached 4 ∧ 0 ∉ reached 3 := by
  have small : onCycles.pointCount < pointLimit := by decide
  have ok := components_twoCycles {}
  obtain ⟨reached, ran, consistent, -⟩ := analyses_agree twoCycles small ok
  have same : reached 3 = reached 4 := (consistent.reached_eq_iff 3 4 rfl rfl).2
    ((consistent.index_eq_iff 3 4 rfl rfl).1 (by decide))
  refine ⟨small, ok, reached, ran [.strayed] 3 rfl, same, fun mem => ?_⟩
  obtain ⟨i, part, marked, sublist, -, perm⟩ := consistent.whole 3 rfl
  obtain rfl : 0 = i := by simpa using (show some (some 0) = some (some i) from marked)
  exact absurd (sublist.flatten.subset (perm.mem_iff.1 mem)) (by decide)

end Navigability
