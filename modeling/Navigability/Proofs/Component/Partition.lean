import Navigability.Graph.Basic
import Navigability.Proofs.Component.Outcome

/-!
# Components are the classes of mutual reachability

A listing that the component search returns lists every member once, and two members are in one
component when a path leads from each to the other. The components come out in the order in which
paths lead against: an earlier component reaches no later one.

## Main results

* `components_partition`: the components part the members by mutual reachability
* `components_reverse_topological`: no path leads from an earlier component to a later one
-/

namespace Navigability.Component

variable {γ : Type} [Adjacency γ] {selection : Selection} {graph : γ} {s : Search}

namespace Search.Sound

variable (sound : s.Sound selection graph) (path : s.snapshot.path = [])

include sound path

/-- Without a path there is no trail: its points would reach a point of the path. -/
theorem trail_eq_nil : s.snapshot.trail = [] := by
  rw [List.eq_nil_iff_forall_not_mem]
  intro x mem
  obtain ⟨y, found, -⟩ := sound.invariant.supported x mem
  rw [path] at found
  exact absurd found List.not_mem_nil

theorem flatten_nodup : s.snapshot.components.flatten.Nodup := by
  have distinct := sound.invariant.distinct
  rwa [sound.trail_eq_nil path, List.nil_append] at distinct

theorem mem_flatten_iff (all : ∀ p, selection.isMember p → s.snapshot.index p ≠ 0) {p : Nat} :
    p ∈ s.snapshot.components.flatten ↔ selection.isMember p := by
  have visited := sound.invariant.visited_iff p
  rw [sound.trail_eq_nil path, List.mem_nil_iff, false_or] at visited
  rw [← visited]
  exact ⟨sound.invariant.member p, all p⟩

end Search.Sound

namespace Snapshot.Output

variable {σ : Snapshot} (output : σ.Output selection graph)

include output

theorem not_reaches {i j : Nat} (lt : i < j) (hi : i < σ.components.length)
    (hj : j < σ.components.length) {u v : Nat} (hu : u ∈ σ.components[i])
    (hv : v ∈ σ.components[j]) : ¬ selection.Reaches graph u v :=
  List.pairwise_iff_getElem.1 output.ordered i j hi hj lt u hu v hv

/-- Points that reach each other are in one component, since neither of two components may be the
later one. -/
theorem mem_of_mutual {component : List Nat} (out : component ∈ σ.components) {u v : Nat}
    (hu : u ∈ component) (hv : v ∈ σ.components.flatten) (there : selection.Reaches graph u v)
    (back : selection.Reaches graph v u) : v ∈ component := by
  obtain ⟨other, out', hv⟩ := List.mem_flatten.1 hv
  obtain ⟨i, hi, rfl⟩ := List.mem_iff_getElem.1 out
  obtain ⟨j, hj, rfl⟩ := List.mem_iff_getElem.1 out'
  rcases Nat.lt_trichotomy i j with lt | rfl | gt
  · exact absurd there (output.not_reaches lt hi hj hu hv)
  · exact hv
  · exact absurd back (output.not_reaches gt hj hi hv hu)

end Snapshot.Output

/-- There is a listing only of points that can be numbered. -/
theorem small_of_ok {buffers : Buffers} {listing : Listing}
    (ok : (selection.components graph buffers).result = .ok listing) :
    selection.pointCount < pointLimit := by
  by_contra large
  rw [Selection.components, Buffers.reset, if_pos (Nat.le_of_not_lt large)] at ok
  cases ok

/-- What a listing holds was put out by a sound search that visited all members. -/
theorem exists_search_of_ok {buffers : Buffers} (small : selection.pointCount < pointLimit)
    {listing : Listing} (ok : (selection.components graph buffers).result = .ok listing) :
    ∃ s : Search, s.Sound selection graph ∧ s.snapshot.path = [] ∧
      (∀ p, selection.isMember p → s.snapshot.index p ≠ 0) ∧
      listing = s.listing selection := by
  rcases components_outcome graph buffers small with
    ⟨s, sound, path, all, ran⟩ | ⟨v, w, s, -, -, ran⟩
  · rw [ran] at ok
    exact ⟨s, sound, path, all, (Except.ok.inj ok).symm⟩
  · rw [ran] at ok
    cases ok

/-! ## Two cycles and a bridge -/

/-- Two cycles of two points each, with a loop at one point of each of them, a further point that
leads back to the first cycle, and a bridge between the cycles that is there twice. -/
def twoCycles : RowGraph := .ofRows [[1, 2, 0], [0, 3, 3], [0], [4], [3, 4]]

/-- The points of the two cycles. -/
def onCycles : Selection := ⟨"cycles", #[true, true, false, true, true]⟩

theorem components_twoCycles (buffers : Buffers) :
    (onCycles.components twoCycles buffers).result = .ok ⟨"cycles", 4, [[4, 3], [1, 0]]⟩ := by
  rw [Selection.components, Buffers.reset_of_lt (by decide)]
  decide +kernel

/-! ## What a listing says -/

/-- **Components are the classes of mutual reachability.** Whatever storage is found, a listing
holds each member once, has no empty component, and holds two members in one component just when
paths lead from each to the other. -/
theorem components_partition (graph : γ) (buffers : Buffers)
    (small : selection.pointCount < pointLimit) {listing : Listing}
    (ok : (selection.components graph buffers).result = .ok listing) :
    listing.components.flatten.Nodup ∧
    (∀ p, p ∈ listing.components.flatten ↔ selection.isMember p) ∧
    (∀ component ∈ listing.components, component ≠ []) ∧
    ∀ u v, selection.isMember u → selection.isMember v →
      ((∃ component ∈ listing.components, u ∈ component ∧ v ∈ component) ↔
        selection.Reaches graph u v ∧ selection.Reaches graph v u) := by
  obtain ⟨s, sound, path, all, rfl⟩ := exists_search_of_ok small ok
  have output := sound.invariant.toOutput
  have covered : ∀ p, p ∈ s.snapshot.components.flatten ↔ selection.isMember p :=
    fun p => sound.mem_flatten_iff path all
  refine ⟨sound.flatten_nodup path, covered, output.inhabited, fun u v hu hv => ⟨?_, ?_⟩⟩
  · rintro ⟨component, mem, hu, hv⟩
    exact ⟨output.mutual_paths component mem u hu v hv, output.mutual_paths component mem v hv u hu⟩
  · rintro ⟨there, back⟩
    obtain ⟨component, mem, hu⟩ := List.mem_flatten.1 ((covered u).2 hu)
    exact ⟨component, mem, hu, output.mem_of_mutual mem hu ((covered v).2 hv) there back⟩

theorem partition_twoCycles :
    (onCycles.components twoCycles {}).result = .ok ⟨"cycles", 4, [[4, 3], [1, 0]]⟩ ∧
      onCycles.Reaches twoCycles 3 4 ∧ onCycles.Reaches twoCycles 4 3 := by
  have ok := components_twoCycles {}
  obtain ⟨-, -, -, same⟩ := components_partition twoCycles {} (by decide) ok
  exact ⟨ok, (same 3 4 rfl rfl).1 ⟨[4, 3], by simp, by simp, by simp⟩⟩

/-- **Components come out in reverse topological order.** -/
theorem components_reverse_topological (graph : γ) (buffers : Buffers)
    (small : selection.pointCount < pointLimit) {listing : Listing}
    (ok : (selection.components graph buffers).result = .ok listing) {i j : Nat} (lt : i < j)
    (inside : j < listing.components.length) :
    ∀ u ∈ listing.components[i], ∀ v ∈ listing.components[j], ¬ selection.Reaches graph u v := by
  obtain ⟨s, sound, -, -, rfl⟩ := exists_search_of_ok small ok
  intro u hu v hv
  exact sound.invariant.toOutput.not_reaches lt (lt.trans inside) inside hu hv

theorem reverse_topological_twoCycles :
    (onCycles.components twoCycles {}).result = .ok ⟨"cycles", 4, [[4, 3], [1, 0]]⟩ ∧
      ¬ onCycles.Reaches twoCycles 4 0 := by
  have ok := components_twoCycles {}
  exact ⟨ok, components_reverse_topological twoCycles {} (by decide) ok (i := 0) (j := 1)
    (by decide) (by decide) 4 (by simp) 0 (by simp)⟩

end Navigability.Component
