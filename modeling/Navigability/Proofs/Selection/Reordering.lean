import Navigability.Proofs.Reach.EntryPoint

/-!
# Rows in another order

Two graphs that differ in the order of the rows of the members have the same steps, and so do two
graphs that differ also in how often a neighbor is repeated. Then they have the same paths, the same
distances and the same members whose rows fray. What a row says beyond its set of neighbors shows in
the degrees only, and there it is the number of repetitions and not the order. The rows of other
points play no part.

## Main definitions

* `Selection.SameNeighbors graph graph'`: the rows of the members have the same elements
* `Selection.Reordered graph graph'`: the rows of the members are permutations of each other

## Main results

* `SameNeighbors.step_eq`: the steps are the same
* `SameNeighbors.reachable_eq`, `SameNeighbors.eccentricity_eq`: so is what they lead to
* `Reordered.coverageOf_eq`: the coverage of reordered rows is the same
-/

namespace Navigability.Selection

open Entry Reach

variable {γ δ : Type} [Adjacency γ] [Adjacency δ]

/-- The rows of the members have the same elements, in any order and repeated any number of
times. -/
def SameNeighbors (selection : Selection) (graph : γ) (graph' : δ) : Prop :=
  ∀ p, selection.isMember p → ∀ w, w ∈ Adjacency.row graph p ↔ w ∈ Adjacency.row graph' p

/-- The rows of the members have the same elements, each repeated as often, in any order. -/
def Reordered (selection : Selection) (graph : γ) (graph' : δ) : Prop :=
  ∀ p, selection.isMember p → (Adjacency.row graph p).Perm (Adjacency.row graph' p)

variable {selection : Selection} {graph : γ} {graph' : δ}

theorem Reordered.sameNeighbors (reordered : selection.Reordered graph graph') :
    selection.SameNeighbors graph graph' :=
  fun p member _ => (reordered p member).mem_iff

namespace SameNeighbors

variable (same : selection.SameNeighbors graph graph')

include same

/-! ## Steps and paths -/

/-- **The steps are the same.** All else that the rows mean follows from this. -/
theorem step_eq : selection.Step graph = selection.Step graph' := by
  ext u v
  constructor
  · rintro ⟨source, neighbor, target⟩
    exact ⟨source, (same u source v).1 neighbor, target⟩
  · rintro ⟨source, neighbor, target⟩
    exact ⟨source, (same u source v).2 neighbor, target⟩

theorem frays_eq : selection.Frays graph = selection.Frays graph' := by
  ext u
  constructor
  · rintro ⟨member, w, mem, outside⟩
    exact ⟨member, w, (same u member w).1 mem, outside⟩
  · rintro ⟨member, w, mem, outside⟩
    exact ⟨member, w, (same u member w).2 mem, outside⟩

theorem reaches_eq : selection.Reaches graph = selection.Reaches graph' := by
  unfold Reaches
  rw [same.step_eq]

theorem walk_eq (length : Nat) : selection.Walk graph length = selection.Walk graph' length := by
  induction length with
  | zero => rfl
  | succ length ih =>
    ext u v
    unfold Walk
    rw [ih, same.step_eq]

theorem distance_eq : selection.Distance graph = selection.Distance graph' := by
  ext u v d
  unfold Distance
  simp only [same.walk_eq]

/-! ## What can be reached -/

theorem reachable_eq : selection.reachable graph = selection.reachable graph' := by
  funext u
  apply List.filter_congr
  intro v _
  rw [decide_eq_decide, same.reaches_eq]

theorem eccentricity_eq : selection.eccentricity graph = selection.eccentricity graph' := by
  funext u
  unfold eccentricity
  rw [same.distance_eq]

theorem union_eq : selection.union graph = selection.union graph' := by
  funext candidates
  unfold union
  rw [same.reaches_eq]

/-- What is measured at an entry point is the same, once the entry point and its degree are. -/
theorem entryReach_eq : selection.entryReach graph = selection.entryReach graph' := by
  funext candidate
  unfold entryReach
  rw [same.reachable_eq, same.eccentricity_eq]

end SameNeighbors

/-! ## Degrees -/

namespace Reordered

variable (reordered : selection.Reordered graph graph')

include reordered

theorem stepCount_eq {p : Nat} (member : selection.isMember p) :
    selection.stepCount graph p = selection.stepCount graph' p :=
  (reordered p member).countP_eq _

theorem candidates_eq : selection.candidates graph = selection.candidates graph' := by
  unfold candidates
  apply List.map_congr_left
  intro p mem
  rw [reordered.stepCount_eq (mem_members_iff.1 mem)]

theorem entryPoints_eq (policy : Policy) :
    selection.entryPoints graph policy = selection.entryPoints graph' policy := by
  unfold entryPoints ranking
  rw [reordered.candidates_eq]

/-- **The coverage** of reordered rows is the same. -/
theorem coverageOf_eq (policy : Policy) :
    selection.coverageOf graph policy = selection.coverageOf graph' policy := by
  have same := reordered.sameNeighbors
  unfold coverageOf
  rw [reordered.entryPoints_eq, same.entryReach_eq, same.union_eq]

end Reordered

end Navigability.Selection
