import Navigability.Proofs.Reach.Coverage

/-!
# More entry points cover more

The entry points of a measurement are the front of one ranking, which does not depend on how many
are wanted. A measurement that wants more of them has the same ones first, each with the same
numbers, and covers what the smaller one covers. What is covered is bounded from below by what any
entry point reaches and from above by the members and by what the entry points reach one by one;
where all members are entry points, it is all members.

The degrees are written before there is any entry point. So measurements of one selection return
their failures together, and the same ones, whatever number of entry points they want, as long as
they want any. Only the room for the entry points goes by their number, and where a machine has it
for more of them it has it for fewer.

## Main definitions

* `Coverage.Bounded`: the bounds on what is covered

## Main results

* `entryPoints_prefix`, `union_mono`: fewer entry points are the first of more, and reach less
* `ncard_union_le_sum`: what is reached together is no more than what is reached one by one
* `coverage_failure_iff`: measurements return their failures together
* `coverage_monotone`: how a coverage depends on the number of entry points
-/

namespace Navigability

open Attempt Entry Reach

namespace Selection

variable {γ : Type} [Adjacency γ] {selection : Selection} {graph : γ} {v w w' : Nat}

/-! ## The first number in a row that is no point -/

theorem Strays.find? (strays : selection.Strays graph v w) :
    (Adjacency.row graph v).find? (selection.pointCount ≤ ·) = some w := by
  obtain ⟨front, back, row, before⟩ := strays.first
  have none : front.find? (selection.pointCount ≤ ·) = none :=
    List.find?_eq_none.2 fun x mem => by simpa using before x mem
  rw [row, List.find?_append, none, Option.none_or, List.find?_cons_of_pos]
  simpa using strays.outside

theorem Strays.unique (strays : selection.Strays graph v w)
    (strays' : selection.Strays graph v w') : w = w' :=
  Option.some.inj (strays.find?.symm.trans strays'.find?)

/-! ## Entry points and what they reach together -/

variable {candidates candidates' : List Candidate}

/-- **Fewer entry points** are the first of more. -/
theorem entryPoints_prefix (selection : Selection) (graph : γ) (tie : TieRule) {k k' : Nat}
    (le : k ≤ k') : selection.entryPoints graph { entryCount := k, tie } <+:
      selection.entryPoints graph { entryCount := k', tie } :=
  List.take_prefix_take_left le

theorem entryPoints_of_memberCount_le {policy : Policy}
    (all : selection.memberCount ≤ policy.entryCount) :
    selection.entryPoints graph policy = selection.ranking graph policy.tie := by
  rw [entryPoints, List.take_of_length_le]
  rwa [(ranking_perm ..).length_eq, candidates, List.length_map, length_members]

theorem union_mono (subset : candidates ⊆ candidates') :
    selection.union graph candidates ⊆ selection.union graph candidates' :=
  fun _ ⟨c, mem, path⟩ => ⟨c, subset mem, path⟩

theorem union_cons (c : Candidate) : selection.union graph (c :: candidates) =
    {v | selection.Reaches graph c.point v} ∪ selection.union graph candidates := by
  ext v
  simp [union]

section Members

variable (members : ∀ c ∈ candidates, selection.isMember c.point)

include members

theorem union_subset : selection.union graph candidates ⊆ {p | p ∈ selection.members} :=
  fun _ mem => mem_members_iff.2 (isMember_of_mem_union members mem)

theorem finite_union : (selection.union graph candidates).Finite :=
  (List.finite_toSet selection.members).subset (union_subset members)

/-- No more is reached than there are members. -/
theorem ncard_union_le : (selection.union graph candidates).ncard ≤ selection.memberCount := by
  rw [← length_members, ← ncard_eq_length selection.members_nodup fun p => Iff.rfl]
  exact Set.ncard_le_ncard (union_subset members) (List.finite_toSet _)

/-- Any of the entry points reaches no more than all of them. -/
theorem length_reachable_le {c : Candidate} (mem : c ∈ candidates) :
    (selection.reachable graph c.point).length ≤ (selection.union graph candidates).ncard := by
  rw [← ncard_reaches (members c mem)]
  exact Set.ncard_le_ncard (fun v path => ⟨c, mem, path⟩) (finite_union members)

omit members in
/-- What is reached together is no more than what is reached one by one. -/
theorem ncard_union_le_sum (members : ∀ c ∈ candidates, selection.isMember c.point) :
    (selection.union graph candidates).ncard ≤
      (candidates.map fun c => (selection.reachable graph c.point).length).sum := by
  induction candidates with
  | nil => simp [union]
  | cons c candidates ih =>
    obtain ⟨member, members⟩ := List.forall_mem_cons.1 members
    rw [union_cons, List.map_cons, List.sum_cons, ← ncard_reaches member]
    exact (Set.ncard_union_le _ _).trans (Nat.add_le_add_left (ih members) _)

end Members

/-- Where all members are entry points, all members are reached, each of them from itself. -/
theorem ncard_union_of_memberCount_le {policy : Policy}
    (all : selection.memberCount ≤ policy.entryCount) :
    (selection.union graph (selection.entryPoints graph policy)).ncard =
      selection.memberCount := by
  rw [← length_members]
  refine ncard_eq_length selection.members_nodup fun p => ?_
  have members : ∀ c ∈ selection.entryPoints graph policy, selection.isMember c.point :=
    fun _ => isMember_of_mem_entryPoints
  refine ⟨fun mem => union_subset members mem, fun mem => ?_⟩
  obtain ⟨c, ranked, rfl⟩ := List.mem_map.1 ((ranking_points selection graph
    policy.tie).1.mem_iff.2 mem)
  exact ⟨c, by rwa [entryPoints_of_memberCount_le all], .refl⟩

end Selection

namespace Reach

variable {γ : Type} [Adjacency γ] {selection : Selection} {graph : γ}

/-- The bounds on what is covered: by each of the entry points, by their sum, and by the members. -/
structure Coverage.Bounded (selection : Selection) (coverage : Coverage) : Prop where
  reached_le : ∀ e ∈ coverage.entries, e.reached ≤ coverage.covered
  le_sum : coverage.covered ≤ (coverage.entries.map EntryReach.reached).sum
  le_memberCount : coverage.covered ≤ selection.memberCount

theorem coverageOf_bounded (selection : Selection) (graph : γ) (policy : Policy) :
    (selection.coverageOf graph policy).Bounded selection := by
  have members : ∀ c ∈ selection.entryPoints graph policy, selection.isMember c.point :=
    fun _ => Selection.isMember_of_mem_entryPoints
  constructor
  · show ∀ e ∈ (selection.entryPoints graph policy).map _, _
    rw [List.forall_mem_map]
    exact fun c mem => Selection.length_reachable_le members mem
  · refine (Selection.ncard_union_le_sum members).trans_eq ?_
    simp [Selection.coverageOf, Selection.entryReach, Function.comp_def]
  · exact Selection.ncard_union_le members

section Memory

variable [Memory]

/-- **Measurements return their failures together**, if they want any entry points. -/
theorem coverage_failure_iff {policy policy' : Policy} (wanted : policy.entryCount ≠ 0)
    (wanted' : policy'.entryCount ≠ 0) (small : selection.pointCount < pointLimit)
    (b b' : Buffers) {failure : Failure} (returned : failure.Returned) :
    (selection.coverage graph policy b).result = .error failure ↔
      (selection.coverage graph policy' b').result = .error failure := by
  have written : outcome (selection.writeDegrees graph b.degrees) =
      outcome (selection.writeDegrees graph b'.degrees) := by
    rw [Selection.writeDegrees_eq_store, Selection.writeDegrees_eq_store]
  have measures : Measures selection policy ↔ Measures selection policy' :=
    and_congr_right fun _ => iff_of_true wanted wanted'
  rw [coverage_returns_iff small b returned, coverage_returns_iff small b' returned, written,
    measures]

/-- Where there is room for more entry points, measurements with fewer succeed together with
those. -/
theorem coverage_success_iff {policy policy' : Policy} (wanted : policy.entryCount ≠ 0)
    (le : policy.entryCount ≤ policy'.entryCount) (granted : Granted selection policy')
    (small : selection.pointCount < pointLimit) (b b' : Buffers) :
    (∃ coverage, (selection.coverage graph policy b).result = .ok coverage) ↔
      ∃ coverage, (selection.coverage graph policy' b').result = .ok coverage := by
  have wanted' : policy'.entryCount ≠ 0 := fun none => wanted (Nat.le_zero.1 (none ▸ le))
  have measures : Measures selection policy ↔ Measures selection policy' :=
    and_congr_right fun _ => iff_of_true wanted wanted'
  have granted' : Granted selection policy := fun runs => (granted (measures.1 runs)).mono le
  simp only [coverage_eq_ok_iff small, exists_eq_left, granted, granted', true_and, measures]

/-- **A coverage grows with the number of entry points.** In any storage, measurements that want
entry points return their failures together, and the same ones; and where there is room for those of
the larger one, they succeed together. If they succeed, one that wants more entry points has those
of the smaller one first, with all their numbers, and covers no less; what is covered is bounded by
the members, by each entry point and by their sum. It is all members if no fewer entry points than
members are wanted, under either tie rule. A measurement that wants none succeeds, also where rows
fray. -/
theorem coverage_monotone (selection : Selection) (graph : γ)
    (small : selection.pointCount < pointLimit) :
    (∀ tie k k', 1 ≤ k → k ≤ k' → ∀ b b' : Buffers,
      (∀ failure : Failure, failure.Returned →
        ((selection.coverage graph { entryCount := k, tie } b).result = .error failure ↔
          (selection.coverage graph { entryCount := k', tie } b').result = .error failure)) ∧
      (Granted selection { entryCount := k', tie } →
        ((∃ coverage,
            (selection.coverage graph { entryCount := k, tie } b).result = .ok coverage) ↔
          ∃ coverage,
            (selection.coverage graph { entryCount := k', tie } b').result = .ok coverage)) ∧
      ∀ coverage coverage',
        (selection.coverage graph { entryCount := k, tie } b).result = .ok coverage →
        (selection.coverage graph { entryCount := k', tie } b').result = .ok coverage' →
        coverage.entries <+: coverage'.entries ∧ coverage.covered ≤ coverage'.covered ∧
          coverage.Bounded selection ∧ coverage'.Bounded selection) ∧
    (∀ policy : Policy, selection.memberCount ≤ policy.entryCount → ∀ b coverage,
      (selection.coverage graph policy b).result = .ok coverage →
      coverage.covered = selection.memberCount) ∧
    ∀ tie b, ∃ coverage,
      (selection.coverage graph { entryCount := 0, tie } b).result = .ok coverage ∧
        coverage.entries = [] ∧ coverage.covered = 0 := by
  refine ⟨fun tie k k' one le b b' => ?_, fun policy all b coverage ok => ?_, fun tie b => ?_⟩
  · have nonzero : k ≠ 0 := Nat.one_le_iff_ne_zero.1 one
    have nonzero' : k' ≠ 0 := Nat.one_le_iff_ne_zero.1 (one.trans le)
    refine ⟨fun failure returned => coverage_failure_iff nonzero nonzero' small b b' returned,
      fun granted => coverage_success_iff nonzero le granted small b b',
      fun coverage coverage' ok ok' => ?_⟩
    obtain ⟨rfl, -⟩ := (coverage_eq_ok_iff small b).1 ok
    obtain ⟨rfl, -⟩ := (coverage_eq_ok_iff small b').1 ok'
    have front := selection.entryPoints_prefix graph tie le
    refine ⟨front.map _, ?_, coverageOf_bounded .., coverageOf_bounded ..⟩
    refine Set.ncard_le_ncard (Selection.union_mono front.subset) (Selection.finite_union ?_)
    exact fun _ => Selection.isMember_of_mem_entryPoints
  · obtain ⟨rfl, -⟩ := (coverage_eq_ok_iff small b).1 ok
    exact Selection.ncard_union_of_memberCount_le all
  · have idle : ¬ Measures selection { entryCount := 0, tie } := fun measures => measures.2 rfl
    exact ⟨_, by rw [coverage_of_not_measures graph idle], rfl, rfl⟩

end Memory

theorem monotone_fork :
    onFork.pointCount < pointLimit ∧
    (onFork.coverage fork { entryCount := 1, tie := .highestFirst } {}).result =
      .ok ⟨"fork", 4, [⟨0, 2, 3, 2⟩], 3⟩ ∧
    (onFork.coverage fork { entryCount := 4, tie := .highestFirst } {}).result =
      .ok ⟨"fork", 4, [⟨0, 2, 3, 2⟩, ⟨4, 1, 3, 2⟩, ⟨1, 1, 2, 1⟩, ⟨2, 0, 1, 0⟩], 4⟩ ∧
    [⟨0, 2, 3, 2⟩] <+: [⟨0, 2, 3, 2⟩, ⟨4, 1, 3, 2⟩, ⟨1, 1, 2, 1⟩, (⟨2, 0, 1, 0⟩ : EntryReach)] ∧
    onFork.memberCount ≤ 4 ∧ 4 = onFork.memberCount := by
  have small : onFork.pointCount < pointLimit := by decide
  have one : (onFork.coverage fork { entryCount := 1, tie := .highestFirst } {}).result =
      .ok ⟨"fork", 4, [⟨0, 2, 3, 2⟩], 3⟩ := by
    decide +kernel
  have four : (onFork.coverage fork { entryCount := 4, tie := .highestFirst } {}).result =
      .ok ⟨"fork", 4, [⟨0, 2, 3, 2⟩, ⟨4, 1, 3, 2⟩, ⟨1, 1, 2, 1⟩, ⟨2, 0, 1, 0⟩], 4⟩ := by
    decide +kernel
  obtain ⟨grows, all, -⟩ := coverage_monotone onFork fork small
  obtain ⟨front, -, -, -⟩ :=
    (grows .highestFirst 1 4 (by decide) (by decide) {} {}).2.2 _ _ one four
  exact ⟨small, one, four, front, by decide,
    all { entryCount := 4, tie := .highestFirst } (by decide) {} _ four⟩

end Reach

end Navigability
