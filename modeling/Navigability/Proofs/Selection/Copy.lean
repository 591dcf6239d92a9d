import Mathlib.Order.Monotone.Basic
import Navigability.Proofs.Selection.Degree
import Navigability.Proofs.Selection.Distance

/-!
# Copies of a selection

A selection in one graph is a copy of a selection in another one, for the same label, when their
members correspond in ascending order, and the members in corresponding rows do so too, in the order
of the rows and repeated ones as often. What else is in the rows, and what the other rows are, makes
no difference. Steps, walks and distances, and the degrees of the members, are the same in a copy.

## Main definitions

* `Selection.Copies selection' graph' selection graph e`: the members of a copy are renamed by `e`
  to the members of the original

## Main results

* `Copies.step`, `Copies.exists_of_step`: steps correspond
* `Copies.reaches_iff`, `Copies.distance_iff`: what is reached corresponds, at the same distances
* `Copies.stepCount_eq`: degrees are the same
-/

namespace Navigability.Selection

variable {γ δ : Type} [Adjacency γ] [Adjacency δ]

/-- The members of a copy are renamed to the members of the original in ascending order, and so are
the members in their rows, in the order of the rows. -/
structure Copies (selection' : Selection) (graph' : δ) (selection : Selection) (graph : γ)
    (e : Nat → Nat) : Prop where
  label : selection.label = selection'.label
  members : selection.members = selection'.members.map e
  rows : ∀ i, selection'.isMember i → (Adjacency.row graph (e i)).filter selection.isMember =
    ((Adjacency.row graph' i).filter selection'.isMember).map e

namespace Copies

variable {selection selection' : Selection} {graph : γ} {graph' : δ} {e : Nat → Nat} {i j v : Nat}
  (copies : Copies selection' graph' selection graph e)

include copies

/-! ## Members -/

theorem memberCount_eq : selection.memberCount = selection'.memberCount := by
  rw [← length_members, ← length_members, copies.members, List.length_map]

theorem isMember (member : selection'.isMember i) : selection.isMember (e i) := by
  rw [← mem_members_iff, copies.members]
  exact List.mem_map_of_mem (mem_members_iff.2 member)

/-- Members are renamed in ascending order. -/
theorem strictMonoOn : StrictMonoOn e {i | selection'.isMember i} := by
  have images := selection.members_ascending
  rw [copies.members, List.pairwise_map] at images
  intro i hi j hj lt
  obtain ⟨a, ha, rfl⟩ := List.mem_iff_getElem.1 (mem_members_iff.2 hi)
  obtain ⟨b, hb, rfl⟩ := List.mem_iff_getElem.1 (mem_members_iff.2 hj)
  have ordered := List.pairwise_iff_getElem.1 selection'.members_ascending
  refine List.pairwise_iff_getElem.1 images a b ha hb ?_
  rcases Nat.lt_trichotomy a b with before | rfl | behind
  · exact before
  · exact absurd lt (Nat.lt_irrefl _)
  · exact absurd lt (Nat.lt_asymm (ordered b a hb ha behind))

theorem eq_iff (hi : selection'.isMember i) (hj : selection'.isMember j) : e i = e j ↔ i = j :=
  ⟨fun same => copies.strictMonoOn.injOn hi hj same, congrArg e⟩

theorem lt_iff (hi : selection'.isMember i) (hj : selection'.isMember j) : e i < e j ↔ i < j :=
  copies.strictMonoOn.lt_iff_lt hi hj

/-! ## Steps and paths -/

/-- Degrees are the same in a copy. -/
theorem stepCount_eq (member : selection'.isMember i) :
    selection.stepCount graph (e i) = selection'.stepCount graph' i := by
  rw [stepCount, stepCount, List.countP_eq_length_filter, copies.rows i member, List.length_map,
    ← List.countP_eq_length_filter]

/-- A step from a member of the copy leads to a member of the copy. -/
theorem exists_of_step (member : selection'.isMember i) (step : selection.Step graph (e i) v) :
    ∃ j, selection'.Step graph' i j ∧ e j = v := by
  have mem : v ∈ (Adjacency.row graph (e i)).filter selection.isMember :=
    List.mem_filter.2 ⟨step.neighbor, step.target⟩
  rw [copies.rows i member, List.mem_map] at mem
  obtain ⟨j, mem, same⟩ := mem
  obtain ⟨neighbor, target⟩ := List.mem_filter.1 mem
  exact ⟨j, ⟨member, neighbor, target⟩, same⟩

theorem step (step : selection'.Step graph' i j) : selection.Step graph (e i) (e j) := by
  have mem : e j ∈ ((Adjacency.row graph' i).filter selection'.isMember).map e :=
    List.mem_map_of_mem (List.mem_filter.2 ⟨step.neighbor, step.target⟩)
  rw [← copies.rows i step.source, List.mem_filter] at mem
  exact ⟨copies.isMember step.source, mem.1, mem.2⟩

/-- Walks in the original from a member of the copy are walks in the copy. -/
theorem walk_iff (member : selection'.isMember i) {length : Nat} :
    selection.Walk graph length (e i) v ↔ ∃ j, selection'.Walk graph' length i j ∧ e j = v := by
  induction length generalizing v with
  | zero => exact ⟨fun same => ⟨i, rfl, same⟩, fun ⟨j, same, same'⟩ => by rw [same, same']; rfl⟩
  | succ length ih =>
    constructor
    · rintro ⟨w, before, last⟩
      obtain ⟨k, walk, rfl⟩ := ih.1 before
      obtain ⟨j, step, rfl⟩ := copies.exists_of_step (walk.reaches.isMember member) last
      exact ⟨j, ⟨k, walk, step⟩, rfl⟩
    · rintro ⟨j, ⟨k, walk, last⟩, rfl⟩
      exact ⟨e k, ih.2 ⟨k, walk, rfl⟩, copies.step last⟩

/-- What is reached corresponds. -/
theorem exists_of_reaches (member : selection'.isMember i)
    (path : selection.Reaches graph (e i) v) : ∃ j, selection'.Reaches graph' i j ∧ e j = v := by
  obtain ⟨length, walk⟩ := reaches_iff_walk.1 path
  obtain ⟨j, walk, same⟩ := (copies.walk_iff member).1 walk
  exact ⟨j, walk.reaches, same⟩

theorem reaches_iff (hi : selection'.isMember i) (hj : selection'.isMember j) :
    selection.Reaches graph (e i) (e j) ↔ selection'.Reaches graph' i j := by
  constructor
  · intro path
    obtain ⟨k, path, same⟩ := copies.exists_of_reaches hi path
    rwa [← (copies.eq_iff (path.isMember hi) hj).1 same]
  · intro path
    obtain ⟨length, walk⟩ := reaches_iff_walk.1 path
    exact ((copies.walk_iff hi).2 ⟨j, walk, rfl⟩).reaches

/-- Distances are the same in a copy. -/
theorem distance_iff (hi : selection'.isMember i) (hj : selection'.isMember j) {d : Nat} :
    selection.Distance graph (e i) (e j) d ↔ selection'.Distance graph' i j d := by
  have walks : {length | selection.Walk graph length (e i) (e j)} =
      {length | selection'.Walk graph' length i j} := by
    ext length
    refine (copies.walk_iff hi).trans ⟨fun ⟨k, walk, same⟩ => ?_, fun walk => ⟨j, walk, rfl⟩⟩
    exact (copies.eq_iff (walk.reaches.isMember hi) hj).1 same ▸ walk
  rw [Distance, Distance, walks]

end Copies

end Navigability.Selection
