import Navigability.Proofs.Reach.Coverage
import Navigability.Proofs.Selection.Copy

/-!
# Traversals of a copy

In a copy of a selection the same is measured. The ranking of the members goes by degrees and by the
order of the points, which are both the same in the copy, so the entry points correspond; and what
is reached from a member corresponds to what is reached from it in the copy, at the same distances.

## Main definitions

* `EntryReach.rename e`, `Coverage.rename e`: what was measured, with the points renamed

## Main results

* `Copies.reachable_eq`: what is reached is what is reached in the copy, renamed
* `Copies.coverageOf_eq`: the coverage is that of the copy, renamed
* `Copies.coverage_renamed`: a measurement comes to what it comes to in the copy, renamed
-/

namespace Navigability

open Entry Reach

/-- A candidate whose point is renamed. -/
def Entry.Candidate.rename (e : Nat → Nat) (candidate : Candidate) : Candidate :=
  { candidate with point := e candidate.point }

/-- What is measured at an entry point, with the point renamed. -/
def Reach.EntryReach.rename (e : Nat → Nat) (entry : EntryReach) : EntryReach :=
  { entry with point := e entry.point }

/-- A coverage with the entry points renamed. -/
def Reach.Coverage.rename (e : Nat → Nat) (coverage : Coverage) : Coverage :=
  { coverage with entries := coverage.entries.map (EntryReach.rename e) }

namespace Selection.Copies

variable {γ δ : Type} [Adjacency γ] [Adjacency δ] {selection selection' : Selection} {graph : γ}
  {graph' : δ} {e : Nat → Nat} {i : Nat} (copies : Copies selection' graph' selection graph e)

include copies

/-- **What is reached** from a member is what is reached in the copy. -/
theorem reachable_eq (member : selection'.isMember i) :
    selection.reachable graph (e i) = (selection'.reachable graph' i).map e := by
  rw [reachable, copies.members, List.filter_map, reachable]
  congr 1
  refine List.filter_congr fun j mem => ?_
  rw [Function.comp_apply, decide_eq_decide]
  exact copies.reaches_iff member (mem_members_iff.1 mem)

theorem eccentricity_eq (member : selection'.isMember i) :
    selection.eccentricity graph (e i) = selection'.eccentricity graph' i := by
  have distances : {d | ∃ v, selection.Distance graph (e i) v d} =
      {d | ∃ j, selection'.Distance graph' i j d} := by
    ext d
    constructor
    · rintro ⟨v, distance⟩
      obtain ⟨j, path, rfl⟩ := copies.exists_of_reaches member distance.reaches
      exact ⟨j, (copies.distance_iff member (path.isMember member)).1 distance⟩
    · rintro ⟨j, distance⟩
      have hj := distance.reaches.isMember member
      exact ⟨e j, (copies.distance_iff member hj).2 distance⟩
  rw [eccentricity, distances, eccentricity]

theorem entryReach_eq {c : Candidate} (member : selection'.isMember c.point) :
    selection.entryReach graph (c.rename e) = (selection'.entryReach graph' c).rename e := by
  simp only [entryReach, Candidate.rename, EntryReach.rename, copies.reachable_eq member,
    copies.eccentricity_eq member, List.length_map]

/-! ## The ranking -/

theorem candidates_eq :
    selection.candidates graph = (selection'.candidates graph').map (Candidate.rename e) := by
  rw [candidates, copies.members, candidates, List.map_map, List.map_map]
  refine List.map_congr_left fun i mem => ?_
  simp only [Function.comp_apply, Candidate.rename, copies.stepCount_eq (mem_members_iff.1 mem)]

/-- Members rank as in the copy. -/
theorem ranking_eq (rule : TieRule) :
    selection.ranking graph rule = (selection'.ranking graph' rule).map (Candidate.rename e) := by
  rw [ranking, copies.candidates_eq, ranking, TieRule.sorted, TieRule.sorted]
  refine (List.map_mergeSort fun a ha b hb => ?_).symm
  have ha := (mem_candidates_iff.1 ha).1
  have hb := (mem_candidates_iff.1 hb).1
  rw [Bool.eq_iff_iff, TieRule.noLater_iff, TieRule.noLater_iff, TieRule.ranksBefore_iff,
    TieRule.ranksBefore_iff]
  cases rule <;> simp only [Candidate.rename, copies.lt_iff ha hb, copies.lt_iff hb ha]

theorem entryPoints_eq (policy : Policy) : selection.entryPoints graph policy =
    (selection'.entryPoints graph' policy).map (Candidate.rename e) := by
  rw [entryPoints, copies.ranking_eq, ← List.map_take, entryPoints]

theorem union_eq {best : List Candidate} (members : ∀ c ∈ best, selection'.isMember c.point) :
    selection.union graph (best.map (Candidate.rename e)) =
      e '' selection'.union graph' best := by
  ext v
  constructor
  · rintro ⟨_, listed, path⟩
    obtain ⟨c, mem, rfl⟩ := List.mem_map.1 listed
    obtain ⟨j, path, same⟩ := copies.exists_of_reaches (members c mem) path
    exact ⟨j, ⟨c, mem, path⟩, same⟩
  · rintro ⟨j, ⟨c, mem, path⟩, rfl⟩
    have hj := path.isMember (members c mem)
    exact ⟨_, List.mem_map_of_mem mem, (copies.reaches_iff (members c mem) hj).2 path⟩

/-- **The coverage** is that of the copy. -/
theorem coverageOf_eq (policy : Policy) :
    selection.coverageOf graph policy = (selection'.coverageOf graph' policy).rename e := by
  have members : ∀ c ∈ selection'.entryPoints graph' policy, selection'.isMember c.point :=
    fun _ => isMember_of_mem_entryPoints
  have injective : Set.InjOn e (selection'.union graph' (selection'.entryPoints graph' policy)) :=
    copies.strictMonoOn.injOn.mono fun p ⟨c, mem, path⟩ => path.isMember (members c mem)
  rw [coverageOf, copies.entryPoints_eq, copies.union_eq members, injective.ncard_image,
    copies.label, copies.memberCount_eq, List.map_map]
  simp only [coverageOf, Coverage.rename, List.map_map, Coverage.mk.injEq, true_and, and_true]
  exact List.map_congr_left fun c mem => copies.entryReach_eq (members c mem)

/-- A measurement is given the room that it asks for when one of the copy is. -/
theorem granted_iff [Memory] (policy : Policy) :
    Granted selection policy ↔ Granted selection' policy := by
  rw [Granted, Measures, copies.memberCount_eq]
  rfl

/-- **A measurement** in which no row frays comes to what it comes to in the copy, in any storage:
to the coverage, renamed, or to an end for want of room. -/
theorem coverage_renamed [Memory] (intact : ∀ p, ¬ selection.Frays graph p)
    (intact' : ∀ i, ¬ selection'.Frays graph' i) (small : selection.pointCount < pointLimit)
    (small' : selection'.pointCount < pointLimit) (policy : Policy) (b b' : Buffers) :
    (selection.coverage graph policy b).result =
      (selection'.coverage graph' policy b').result.map (Coverage.rename e) := by
  by_cases granted : Granted selection policy
  · rw [coverage_of_intact granted small intact,
      coverage_of_intact ((copies.granted_iff policy).1 granted) small' intact',
      copies.coverageOf_eq]
    rfl
  · rw [coverage_of_refused granted small intact,
      coverage_of_refused (mt (copies.granted_iff policy).2 granted) small' intact']
    rfl

end Selection.Copies

end Navigability
