import Navigability.Proofs.Entry.Ranking
import Navigability.Proofs.Reach.Reachable
import Navigability.Proofs.Selection.Degree
import Navigability.Reach.Coverage

/-!
# Entry points and what they reach

The coverage of a selection, said without traversals: the members ranked by their degrees, for each
of the best the members that it reaches and the greatest of their distances, and how many members
the best reach together.

## Main definitions

* `Selection.ranking`, `Selection.entryPoints`: the members in the order of their ranks, and the
  best of them
* `Selection.entryReach`, `Selection.union`: what is reached from an entry point, and from all
* `Selection.coverageOf`: the coverage
* `Reach.Coverage.Exact`: what a coverage says, in terms of paths and distances

## Main results

* `filterMap_candidate`: the degrees of a full table make all members candidates
* `coverageOf_exact`: what the coverage says
-/

namespace Navigability

open Entry Reach

namespace Selection

variable {γ : Type} [Adjacency γ]

/-- The members with their degrees, which are kept in 32 bits. -/
def candidates (selection : Selection) (graph : γ) : List Candidate :=
  selection.members.map fun point =>
    { point, degree := selection.stepCount graph point % UInt32.size }

/-- The members in the order of their ranks. -/
def ranking (selection : Selection) (graph : γ) (rule : TieRule) : List Candidate :=
  rule.sorted (selection.candidates graph)

/-- The best members, as many as a policy wants. -/
def entryPoints (selection : Selection) (graph : γ) (policy : Policy) : List Candidate :=
  (selection.ranking graph policy.tie).take policy.entryCount

/-- What is measured at an entry point. -/
noncomputable def entryReach (selection : Selection) (graph : γ) (candidate : Candidate) :
    EntryReach where
  point := candidate.point
  degree := candidate.degree
  reached := (selection.reachable graph candidate.point).length
  depth := selection.eccentricity graph candidate.point

/-- The points that can be reached from any of some entry points. -/
def union (selection : Selection) (graph : γ) (candidates : List Candidate) : Set Nat :=
  {v | ∃ c ∈ candidates, selection.Reaches graph c.point v}

/-- The coverage of a selection in which no row frays. -/
noncomputable def coverageOf (selection : Selection) (graph : γ) (policy : Policy) : Coverage where
  label := selection.label
  memberCount := selection.memberCount
  entries := (selection.entryPoints graph policy).map (selection.entryReach graph)
  covered := (selection.union graph (selection.entryPoints graph policy)).ncard

variable {selection : Selection} {graph : γ}

theorem mem_candidates_iff {c : Candidate} : c ∈ selection.candidates graph ↔
    selection.isMember c.point ∧ c.degree = selection.stepCount graph c.point % UInt32.size := by
  rw [candidates, List.mem_map]
  constructor
  · rintro ⟨point, mem, rfl⟩
    exact ⟨mem_members_iff.1 mem, rfl⟩
  · rintro ⟨member, degree⟩
    exact ⟨c.point, mem_members_iff.2 member, by rw [← degree]⟩

theorem ranking_perm (selection : Selection) (graph : γ) (rule : TieRule) :
    (selection.ranking graph rule).Perm (selection.candidates graph) :=
  rule.sorted_perm _

theorem mem_candidates_of_mem_entryPoints {policy : Policy} {c : Candidate}
    (mem : c ∈ selection.entryPoints graph policy) : c ∈ selection.candidates graph :=
  (ranking_perm ..).mem_iff.1 (List.mem_of_mem_take mem)

theorem isMember_of_mem_entryPoints {policy : Policy} {c : Candidate}
    (mem : c ∈ selection.entryPoints graph policy) : selection.isMember c.point :=
  (mem_candidates_iff.1 (mem_candidates_of_mem_entryPoints mem)).1

theorem length_entryPoints (policy : Policy) : (selection.entryPoints graph policy).length =
    min policy.entryCount selection.memberCount := by
  rw [entryPoints, List.length_take, (ranking_perm ..).length_eq, candidates, List.length_map,
    length_members]

/-- The degrees of a full table make all members candidates. -/
theorem filterMap_candidate (selection : Selection) (graph : γ) :
    selection.members.filterMap (candidate? (selection.degreeTable graph selection.members)) =
      selection.candidates graph := by
  rw [candidates, ← List.filterMap_eq_map]
  refine List.filterMap_congr fun p mem => ?_
  rw [candidate?, getElem?_degreeTable (lt_of_isMember (mem_members_iff.1 mem)) mem]
  simp [UInt32.size]

theorem ncard_eq_length {set : Set Nat} {list : List Nat} (nodup : list.Nodup)
    (mem_iff : ∀ p, p ∈ set ↔ p ∈ list) : set.ncard = list.length := by
  have listed : set = {p | p ∈ list} := Set.ext mem_iff
  rw [listed, ← List.coe_toFinset, Set.ncard_coe_finset, List.toFinset_card_of_nodup nodup]

theorem ncard_reaches {u : Nat} (member : selection.isMember u) :
    {v | selection.Reaches graph u v}.ncard = (selection.reachable graph u).length :=
  ncard_eq_length (reachable_nodup ..) fun _ => (mem_reachable_iff member).symm

theorem mem_union_iff {candidates : List Candidate} {p : Nat}
    (members : ∀ c ∈ candidates, selection.isMember c.point) :
    p ∈ selection.union graph candidates ↔
      ∃ c ∈ candidates, p ∈ selection.reachable graph c.point := by
  constructor
  · rintro ⟨c, mem, path⟩
    exact ⟨c, mem, (mem_reachable_iff (members c mem)).2 path⟩
  · rintro ⟨c, mem, reached⟩
    exact ⟨c, mem, (mem_reachable_iff (members c mem)).1 reached⟩

theorem isMember_of_mem_union {candidates : List Candidate} {p : Nat}
    (members : ∀ c ∈ candidates, selection.isMember c.point)
    (mem : p ∈ selection.union graph candidates) : selection.isMember p := by
  obtain ⟨c, mem, path⟩ := mem
  exact path.isMember (members c mem)

end Selection

namespace Reach

variable {γ : Type} [Adjacency γ] {selection : Selection} {graph : γ}

/-! ## What a coverage says -/

/-- Whether a member comes before another as an entry point: its degree, in 32 bits, is greater, or
the degrees are equal and the tie rule prefers it. -/
def Precedes (selection : Selection) (graph : γ) (rule : TieRule) (u v : Nat) : Prop :=
  selection.stepCount graph v % 2 ^ 32 < selection.stepCount graph u % 2 ^ 32 ∨
    selection.stepCount graph u % 2 ^ 32 = selection.stepCount graph v % 2 ^ 32 ∧
      match rule with
      | .lowestFirst => u < v
      | .highestFirst => v < u

/-- What a coverage says about its selection, in terms of paths and distances. -/
structure Coverage.Exact (selection : Selection) (graph : γ) (policy : Policy)
    (coverage : Coverage) : Prop where
  label : coverage.label = selection.label
  memberCount : coverage.memberCount = selection.members.length
  length : coverage.entries.length = min policy.entryCount selection.members.length
  order : ∃ order : List Nat, order.Perm selection.members ∧
    order.Pairwise (Precedes selection graph policy.tie) ∧
    coverage.entries.map (·.point) = order.take policy.entryCount
  degree : ∀ e ∈ coverage.entries, e.degree = selection.stepCount graph e.point % 2 ^ 32
  reached : ∀ e ∈ coverage.entries, e.reached = {v | selection.Reaches graph e.point v}.ncard
  depth : ∀ e ∈ coverage.entries,
    IsGreatest {d | ∃ v, selection.Distance graph e.point v d} e.depth
  covered : coverage.covered =
    {v | ∃ e ∈ coverage.entries, selection.Reaches graph e.point v}.ncard

theorem precedes_of_noLater {rule : TieRule} {c c' : Candidate}
    (mem : c ∈ selection.candidates graph) (mem' : c' ∈ selection.candidates graph)
    (first : rule.noLater c c') (differs : c.point ≠ c'.point) :
    Precedes selection graph rule c.point c'.point := by
  have degree := (Selection.mem_candidates_iff.1 mem).2
  have degree' := (Selection.mem_candidates_iff.1 mem').2
  rw [TieRule.noLater_iff, TieRule.ranksBefore_iff, degree, degree'] at first
  cases rule <;> simp only [UInt32.size, Precedes] at first ⊢ <;> omega

/-- The points of the ranking are the members, in the order in which they come as entry points. -/
theorem ranking_points (selection : Selection) (graph : γ) (rule : TieRule) :
    ((selection.ranking graph rule).map (·.point)).Perm selection.members ∧
      ((selection.ranking graph rule).map (·.point)).Pairwise
        (Precedes selection graph rule) := by
  have perm : ((selection.ranking graph rule).map (·.point)).Perm selection.members := by
    have points : (selection.candidates graph).map (·.point) = selection.members := by
      simp [Selection.candidates, Function.comp_def]
    exact points ▸ (Selection.ranking_perm ..).map _
  refine ⟨perm, List.pairwise_map.2 ?_⟩
  have distinct : (selection.ranking graph rule).Pairwise fun c c' => c.point ≠ c'.point :=
    List.pairwise_map.1 (perm.nodup_iff.2 selection.members_nodup)
  refine ((rule.sorted_pairwise _).and distinct).imp_of_mem fun mem mem' both => ?_
  have listed := fun c => (Selection.ranking_perm selection graph rule).mem_iff (a := c)
  exact precedes_of_noLater ((listed _).1 mem) ((listed _).1 mem') both.1 both.2

theorem coverageOf_exact (selection : Selection) (graph : γ) (policy : Policy) :
    (selection.coverageOf graph policy).Exact selection graph policy := by
  have entries : (selection.coverageOf graph policy).entries =
      (selection.entryPoints graph policy).map (selection.entryReach graph) := rfl
  have listed : ∀ c ∈ selection.entryPoints graph policy, selection.isMember c.point ∧
      c.degree = selection.stepCount graph c.point % UInt32.size := fun c mem =>
    Selection.mem_candidates_iff.1 (Selection.mem_candidates_of_mem_entryPoints mem)
  obtain ⟨perm, ordered⟩ := ranking_points selection graph policy.tie
  refine ⟨rfl, selection.length_members.symm, ?_, ⟨_, perm, ordered, ?_⟩, ?_, ?_, ?_, ?_⟩
  · rw [entries, List.length_map, Selection.length_entryPoints, Selection.length_members]
  · rw [entries, List.map_map, ← List.map_take]
    rfl
  · rw [entries, List.forall_mem_map]
    exact fun c mem => (listed c mem).2
  · rw [entries, List.forall_mem_map]
    exact fun c mem => (Selection.ncard_reaches (listed c mem).1).symm
  · rw [entries, List.forall_mem_map]
    exact fun c mem => Selection.isGreatest_eccentricity graph (listed c mem).1
  · show (selection.union graph _).ncard = _
    simp [entries, Selection.union, Selection.entryReach]

end Reach

end Navigability
