import Mathlib.Data.List.Sort
import Navigability.Entry.Ranking
import Navigability.Proofs.Entry.Heap

/-!
# The shortlist is the front of the ranking

The candidates that a shortlist holds and those it has turned away are together all that were
offered, and none of the held ones ranks behind one that was turned away. Ranking is a linear order
on candidates, so what the shortlist holds at the end, the best first, is the front of the sorted
list of all candidates.

## Main definitions

* `TieRule.noLater`: whether one candidate ranks no later than another
* `TieRule.sorted`: the candidates in the order of their ranks
* `TieRule.Precedes`: the order of ranks, by degrees and points
* `Shortlist.Holds`: what a shortlist knows of the candidates that were offered

## Main results

* `Shortlist.Holds.offer`: offering a candidate keeps that
* `best_eq_take`: the best candidates are the first ones of the sorted list
* `best_ranked`: the best candidates of a list of points, in any order and up to any limit
-/

namespace Navigability.Entry

variable {rule : TieRule} {limit : Nat} {a b c : Candidate}

/-! ## The order of ranks -/

namespace TieRule

theorem ranksBefore_iff : rule.ranksBefore a b ↔ b.degree < a.degree ∨ a.degree = b.degree ∧
    match rule with
    | lowestFirst => a.point < b.point
    | highestFirst => b.point < a.point := by
  by_cases same : a.degree = b.degree
  · cases rule <;> simp [ranksBefore, same]
  · simp [ranksBefore, same]

/-- Whether one candidate ranks no later than another. -/
def noLater (rule : TieRule) (a b : Candidate) : Bool := rule.ranksLast b a

theorem noLater_iff : rule.noLater a b ↔ ¬ rule.ranksBefore b a := by
  simp [noLater, ranksLast]

theorem noLater_total (rule : TieRule) (a b : Candidate) : rule.noLater a b ∨ rule.noLater b a := by
  rw [noLater_iff, noLater_iff, ranksBefore_iff, ranksBefore_iff]
  cases rule <;> grind

theorem noLater_trans (a b c : Candidate) (first : rule.noLater a b) (second : rule.noLater b c) :
    rule.noLater a c := by
  rw [noLater_iff, ranksBefore_iff] at first second ⊢
  cases rule <;> grind

theorem noLater_antisymm (first : rule.noLater a b) (second : rule.noLater b a) : a = b := by
  rw [noLater_iff, ranksBefore_iff] at first second
  obtain ⟨point, degree⟩ := a
  obtain ⟨point', degree'⟩ := b
  cases rule <;> grind

theorem noLater_of_ranksBefore (before : rule.ranksBefore a b) : rule.noLater a b := by
  rw [ranksBefore_iff] at before
  rw [noLater_iff, ranksBefore_iff]
  cases rule <;> grind

/-- Whether one candidate may stand in front of another: degrees descend, and where they are equal
the points ascend or descend, as the rule says. -/
def Precedes (rule : TieRule) (a b : Candidate) : Prop :=
  b.degree < a.degree ∨ a.degree = b.degree ∧
    match rule with
    | lowestFirst => a.point ≤ b.point
    | highestFirst => b.point ≤ a.point

theorem noLater_iff_precedes : rule.noLater a b ↔ rule.Precedes a b := by
  rw [noLater_iff, ranksBefore_iff, Precedes.eq_def]
  cases rule <;> grind

/-- Candidates in the order of their ranks. -/
def sorted (rule : TieRule) (candidates : List Candidate) : List Candidate :=
  candidates.mergeSort rule.noLater

theorem sorted_perm (candidates : List Candidate) : (rule.sorted candidates).Perm candidates :=
  List.mergeSort_perm ..

theorem sorted_pairwise (rule : TieRule) (candidates : List Candidate) :
    (rule.sorted candidates).Pairwise fun a b => rule.noLater a b :=
  List.pairwise_mergeSort noLater_trans
    (fun a b => by simpa using rule.noLater_total a b) _

/-- There is one list of given candidates in the order of their ranks. -/
theorem eq_sorted {candidates list : List Candidate} (perm : list.Perm candidates)
    (ascending : list.Pairwise fun a b => rule.noLater a b) : list = rule.sorted candidates :=
  (perm.trans (rule.sorted_perm candidates).symm).eq_of_pairwise
    (fun _ _ _ _ => noLater_antisymm) ascending (rule.sorted_pairwise candidates)

end TieRule

/-! ## What a shortlist holds -/

namespace Shortlist

variable {list : Shortlist} {offered : List Candidate}

theorem ranksLast_trans (a b c : Candidate) (first : rule.ranksLast a b)
    (second : rule.ranksLast b c) : rule.ranksLast a c :=
  TieRule.noLater_trans c b a second first

theorem ranksLast_total (a b : Candidate) : rule.ranksLast a b ∨ rule.ranksLast b a :=
  rule.noLater_total b a

/-- A shortlist of at most `limit` candidates holds the best of those that were offered. -/
structure Holds (rule : TieRule) (limit : Nat) (offered : List Candidate) (list : Shortlist) :
    Prop where
  ordered : list.heap.Ordered rule.ranksLast
  size_eq : list.size = list.heap.elements.length
  size_le : list.size ≤ limit
  turned_away : ∃ others, (list.heap.elements ++ others).Perm offered ∧
    (∀ a ∈ list.heap.elements, ∀ b ∈ others, rule.noLater a b) ∧
    (list.size < limit → others = [])

theorem Holds.nil (rule : TieRule) (limit : Nat) : Holds rule limit [] {} where
  ordered := trivial
  size_eq := rfl
  size_le := Nat.zero_le _
  turned_away := ⟨[], by simp [Heap.elements], by simp, fun _ => rfl⟩

/-- **Offering a candidate** leaves the best of all that were offered. While there is room nobody
was turned away. Then the candidate is turned away, or the worst one gives way to it, and all that
are held rank no later than that one. -/
theorem Holds.offer (holds : Holds rule limit offered list) (candidate : Candidate) :
    Holds rule limit (candidate :: offered) (list.offer rule limit candidate) := by
  obtain ⟨ordered, size_eq, size_le, others, all, better, room⟩ := holds
  obtain ⟨heap, size⟩ := list
  have inserted := fun heap : Heap Candidate => heap.elements_insert rule.ranksLast candidate
  rw [Shortlist.offer]
  dsimp only at *
  split
  · next lt =>
    refine ⟨ordered.insert ranksLast_trans ranksLast_total candidate, ?_, lt, [], ?_, by simp,
      fun _ => rfl⟩
    · rw [size_eq, (inserted heap).length_eq, List.length_cons]
    · rw [room lt, List.append_nil] at all
      rw [List.append_nil]
      exact (inserted heap).trans (all.cons candidate)
  · next full =>
    split
    · refine ⟨trivial, size_eq, size_le, candidate :: others, ?_, by simp [Heap.elements],
        fun lt => absurd lt full⟩
      exact all.cons candidate
    · next rank worst left right =>
      have worst_last : ∀ a ∈ left.elements ++ right.elements, rule.noLater a worst := ordered.1
      have merged := Heap.elements_merge rule.ranksLast left right
      have ordered' := (ordered.2.1.merge ranksLast_trans ranksLast_total ordered.2.2)
      split
      · next before =>
        refine ⟨ordered'.insert ranksLast_trans ranksLast_total candidate, ?_, size_le,
          worst :: others, ?_, ?_, fun lt => absurd lt full⟩
        · rw [size_eq, (inserted _).length_eq, List.length_cons, merged.length_eq]
          rfl
        · refine (((inserted _).trans (merged.cons candidate)).append_right _).trans ?_
          exact (List.perm_middle.trans all).cons candidate
        · intro a mem
          have upTo : rule.noLater a worst := by
            rw [(inserted _).mem_iff, List.mem_cons, merged.mem_iff] at mem
            rcases mem with rfl | old
            · exact TieRule.noLater_of_ranksBefore before
            · exact worst_last a old
          refine List.forall_mem_cons.2 ⟨upTo, fun b out => ?_⟩
          exact TieRule.noLater_trans _ _ _ upTo (better worst List.mem_cons_self b out)
      · next behind =>
        refine ⟨ordered, size_eq, size_le, candidate :: others, ?_, ?_, fun lt => absurd lt full⟩
        · exact List.perm_middle.trans (all.cons candidate)
        · intro a mem
          have behind : rule.noLater worst candidate := TieRule.noLater_iff.2 behind
          have upTo : rule.noLater a worst := by
            rcases List.mem_cons.1 mem with rfl | old
            · exact TieRule.noLater_iff.2 (by rw [TieRule.ranksBefore_iff]; cases rule <;> simp)
            · exact worst_last a old
          exact List.forall_mem_cons.2 ⟨TieRule.noLater_trans _ _ _ upTo behind, better a mem⟩

theorem Holds.foldl {list : Shortlist} {offered : List Candidate} (candidates : List Candidate)
    (holds : Holds rule limit offered list) :
    Holds rule limit (candidates.reverse ++ offered)
      (candidates.foldl (Shortlist.offer rule limit) list) := by
  induction candidates generalizing list offered with
  | nil => exact holds
  | cons candidate candidates ih => simpa using ih (holds.offer candidate)

/-- Taking candidates out of an ordered heap, the worst first, puts them in order. -/
theorem unload_spec {n : Nat} (heap : Heap Candidate) (ranked : List Candidate)
    (ordered : heap.Ordered rule.ranksLast) (size : n = heap.elements.length)
    (ascending : ranked.Pairwise fun a b => rule.noLater a b)
    (better : ∀ a ∈ heap.elements, ∀ b ∈ ranked, rule.noLater a b) :
    (unload rule n heap ranked).Perm (heap.elements ++ ranked) ∧
      (unload rule n heap ranked).Pairwise fun a b => rule.noLater a b := by
  induction n generalizing heap ranked with
  | zero =>
    rw [List.length_eq_zero_iff.1 size.symm]
    exact ⟨.refl _, ascending⟩
  | succ n ih =>
    cases heap with
    | empty => simp [Heap.elements] at size
    | node rank worst left right =>
      have merged := Heap.elements_merge rule.ranksLast left right
      obtain ⟨perm, ascending'⟩ := ih (left.merge rule.ranksLast right) (worst :: ranked)
        (ordered.2.1.merge ranksLast_trans ranksLast_total ordered.2.2)
        (by
          rw [merged.length_eq]
          exact Nat.succ.inj size)
        (List.pairwise_cons.2 ⟨better worst List.mem_cons_self, ascending⟩)
        (fun a mem => List.forall_mem_cons.2
          ⟨ordered.1 a (merged.mem_iff.1 mem),
            better a (List.mem_cons_of_mem _ (merged.mem_iff.1 mem))⟩)
      refine ⟨perm.trans ?_, ascending'⟩
      exact (merged.append_right _).trans List.perm_middle

/-- **What is held at the end**, the best first, is the front of the sorted list, and the others in
order are the rest of it. -/
theorem Holds.ranked_eq (holds : Holds rule limit offered list) :
    list.ranked rule = (rule.sorted offered).take limit := by
  obtain ⟨ordered, size_eq, size_le, others, all, better, room⟩ := holds
  obtain ⟨perm, ascending⟩ := unload_spec list.heap [] ordered size_eq .nil (by simp)
  rw [List.append_nil] at perm
  have whole : list.ranked rule ++ rule.sorted others = rule.sorted offered := by
    refine TieRule.eq_sorted ((perm.append (rule.sorted_perm others)).trans all) ?_
    refine List.pairwise_append.2 ⟨ascending, rule.sorted_pairwise others, fun a held b out => ?_⟩
    exact better a (perm.mem_iff.1 held) b ((rule.sorted_perm others).mem_iff.1 out)
  have length : (list.ranked rule).length = list.size := perm.length_eq.trans size_eq.symm
  rw [← whole]
  rcases Nat.lt_or_eq_of_le size_le with lt | full
  · rw [room lt]
    simp [TieRule.sorted, List.take_of_length_le (length.trans_le size_le)]
  · rw [← full, ← length, List.take_left']
    rfl

end Shortlist

/-- **The best candidates** are the first ones of the sorted list. -/
theorem best_eq_take (degrees : Array UInt32) (rule : TieRule) (limit : Nat)
    (points : List Nat) :
    best degrees rule limit points =
      (rule.sorted (points.filterMap (candidate? degrees))).take limit := by
  have holds := (Shortlist.Holds.nil rule limit).foldl
    (points.filterMap (candidate? degrees))
  rw [List.append_nil] at holds
  rw [best, holds.ranked_eq]
  congr 1
  exact (TieRule.eq_sorted ((rule.sorted_perm _).trans (List.reverse_perm _))
    (rule.sorted_pairwise _))

/-- The best candidates are among the given points. -/
theorem point_mem_of_mem_best {degrees : Array UInt32} {points : List Nat}
    (mem : c ∈ best degrees rule limit points) : c.point ∈ points := by
  rw [best_eq_take] at mem
  obtain ⟨p, given, found⟩ := List.mem_filterMap.1
    ((rule.sorted_perm _).mem_iff.1 (List.mem_of_mem_take mem))
  obtain ⟨degree, -, rfl⟩ := Option.map_eq_some_iff.1 found
  exact given

/-- A shortlist that is taken has room, or is for no candidates, and holds the best ones. -/
theorem shortlist_eq_ok_iff [Memory] {degrees : Array UInt32} {points : List Nat}
    {candidates : List Candidate} :
    shortlist degrees rule limit points = .ok candidates ↔
      (limit = 0 ∨ HasRoom limit) ∧ best degrees rule limit points = candidates := by
  by_cases none : limit = 0
  · subst none
    rw [shortlist, if_pos rfl, best_eq_take, List.take_zero, Except.ok.injEq]
    exact (and_iff_right (.inl rfl)).symm
  · by_cases room : HasRoom limit
    · rw [shortlist_of_hasRoom degrees rule none room, Except.ok.injEq]
      exact (and_iff_right (.inr room)).symm
    · rw [shortlist_of_not_hasRoom degrees rule none room]
      refine iff_of_false (fun same => ?_) fun listed => listed.1.elim none room
      cases same

/-- The candidates are the points that have a degree, each time they are given. -/
theorem filterMap_candidate? (degrees : Array UInt32) (points : List Nat) :
    points.filterMap (candidate? degrees) =
      (points.filter (· < degrees.size)).map fun p => ⟨p, (degrees.getD p 0).toNat⟩ := by
  rw [← List.filterMap_eq_map, List.filterMap_filter]
  refine List.filterMap_congr fun p _ => ?_
  by_cases inside : p < degrees.size
  · simp [candidate?, inside]
  · simp [candidate?, inside]

/-- **The best candidates up to any limit** are the first ones of one ranked list, in which every
point stands as often as it is given. So the order of the points does not matter, and with a higher
limit more candidates follow behind the same ones. A shortlist that there is room for holds them. -/
theorem best_ranked (degrees : Array UInt32) (rule : TieRule) (points : List Nat) :
    ∃ ranked : List Candidate,
      ranked.Perm ((points.filter (· < degrees.size)).map fun p =>
        ⟨p, (degrees.getD p 0).toNat⟩) ∧
      ranked.Pairwise rule.Precedes ∧
      (∀ limit, best degrees rule limit points = ranked.take limit) ∧
      (∀ points', points'.Perm points → ∀ limit,
        best degrees rule limit points' = best degrees rule limit points) ∧
      (∀ limit limit', limit ≤ limit' →
        best degrees rule limit points <+: best degrees rule limit' points) ∧
      ∀ [Memory] limit, limit = 0 ∨ HasRoom limit →
        shortlist degrees rule limit points = .ok (best degrees rule limit points) := by
  refine ⟨rule.sorted (points.filterMap (candidate? degrees)), ?_, ?_, ?_, ?_, ?_, ?_⟩
  · rw [← filterMap_candidate?]
    exact rule.sorted_perm _
  · exact (rule.sorted_pairwise _).imp TieRule.noLater_iff_precedes.1
  · exact fun limit => best_eq_take degrees rule limit points
  · intro points' perm limit
    have same := (rule.sorted_perm _).trans (perm.filterMap (candidate? degrees))
    rw [best_eq_take, best_eq_take, TieRule.eq_sorted same (rule.sorted_pairwise _)]
  · intro limit limit' le
    rw [best_eq_take, best_eq_take]
    exact List.take_prefix_take_left le
  · exact fun limit granted => shortlist_eq_ok_iff.2 ⟨granted, rfl⟩

theorem best_ranked_repeated :
    [5, 1, 2, 1, 0].Perm [1, 0, 2, 5, 1] ∧ 3 ≤ 4 ∧
    best #[2, 4, 4, 1] .highestFirst 3 [1, 0, 2, 5, 1] = [⟨2, 4⟩, ⟨1, 4⟩, ⟨1, 4⟩] ∧
    best #[2, 4, 4, 1] .highestFirst 3 [5, 1, 2, 1, 0] =
      best #[2, 4, 4, 1] .highestFirst 3 [1, 0, 2, 5, 1] ∧
    best #[2, 4, 4, 1] .highestFirst 3 [1, 0, 2, 5, 1] <+:
      best #[2, 4, 4, 1] .highestFirst 4 [1, 0, 2, 5, 1] ∧
    (3 = 0 ∨ HasRoom 3) ∧
    shortlist #[2, 4, 4, 1] .highestFirst 3 [1, 0, 2, 5, 1] =
      .ok (best #[2, 4, 4, 1] .highestFirst 3 [1, 0, 2, 5, 1]) := by
  obtain ⟨-, -, -, -, reordered, longer, listed⟩ :=
    best_ranked #[2, 4, 4, 1] .highestFirst [1, 0, 2, 5, 1]
  have perm : [5, 1, 2, 1, 0].Perm [1, 0, 2, 5, 1] := by decide
  have granted : 3 = 0 ∨ HasRoom 3 := .inr (by decide)
  exact ⟨perm, by decide, by decide, reordered _ perm 3, longer 3 4 (by decide), granted,
    listed 3 granted⟩

end Navigability.Entry
