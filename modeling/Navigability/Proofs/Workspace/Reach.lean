import Navigability.Proofs.Reach.Reachable
import Navigability.Proofs.Workspace.History

/-!
# What is reached in a used workspace

In a workspace that was used for any tasks before, the points that can be reached from a start are
found by paths alone. A start that is no point is refused, from a point that is no member nothing is
reached, and from a member the answer lists the members that paths lead to, itself included, each of
them once and in ascending order. The marks that earlier traversals left have no part in it, whether
the storage is sized anew or was of the right size and is used with the marks in it.

## Main definitions

* `Reach.Answers`: the answer to the question what can be reached from a point

## Main results

* `reach_answers`: the answer in a workspace that was used for any tasks before
-/

namespace Navigability

open Component Reach

variable {γ : Type} [Adjacency γ] {selection : Selection} {graph : γ} {start : Nat}

/-- The answer to the question what can be reached from a point. -/
structure Reach.Answers (selection : Selection) (graph : γ) (start : Nat)
    (result : Except Failure (List Nat)) : Prop where
  outside_iff : ∀ e n, result = .error (.entryOutOfRange e n) ↔
    selection.pointCount ≤ start ∧ e = start ∧ n = selection.pointCount
  nothing_iff : result = .ok [] ↔ start < selection.pointCount ∧ ¬ selection.isMember start
  ascending : ∀ points, result = .ok points → points.Pairwise (· < ·)
  mem_iff : selection.isMember start → ∀ points, result = .ok points →
    ∀ v, v ∈ points ↔ selection.isMember v ∧ selection.Reaches graph start v
  succeeds_iff : (∃ points, result = .ok points) ↔ start < selection.pointCount ∧
    (selection.isMember start → ∀ v, selection.Reaches graph start v → ¬ selection.Frays graph v)

/-- A start is refused where it is no point. -/
theorem Reach.reach_eq_outside_iff {b : Buffers} {m : Nat} (ready : b.Ready m)
    (small : selection.pointCount < pointLimit) (e n : Nat) :
    (selection.reach graph start b).result = .error (.entryOutOfRange e n) ↔
      selection.pointCount ≤ start ∧ e = start ∧ n = selection.pointCount := by
  rcases Nat.lt_or_ge start selection.pointCount with inside | outside
  · refine iff_of_false ?_ fun answer => Nat.not_lt.2 answer.1 inside
    by_cases member : selection.isMember start
    · by_cases frays : ∃ v, selection.Reaches graph start v ∧ selection.Frays graph v
      · obtain ⟨p, w, failed, -⟩ := reach_of_frays ready small member frays
        rw [failed]
        intro same
        cases same
      · have intact : ∀ v, selection.Reaches graph start v → ¬ selection.Frays graph v :=
          fun v path fray => frays ⟨v, path, fray⟩
        rw [reach_of_intact ready small member intact]
        intro same
        cases same
    · rw [Selection.reach, reached_not_member graph inside member]
      intro same
      cases same
  · rw [Selection.reach, reached_outside graph outside]
    constructor
    · intro failed
      cases failed
      exact ⟨outside, rfl, rfl⟩
    · rintro ⟨-, rfl, rfl⟩
      rfl

/-- In ready storage the question is answered. -/
theorem Reach.answers_of_ready (graph : γ) (start : Nat) {b : Buffers} {m : Nat} (ready : b.Ready m)
    (small : selection.pointCount < pointLimit) :
    Answers selection graph start (selection.reach graph start b).result := by
  constructor
  · exact reach_eq_outside_iff ready small
  · rw [reach_eq_ok_iff ready small]
    refine and_congr_right fun inside => ?_
    split
    · next member =>
      have here : start ∈ selection.reachable graph start :=
        (Selection.mem_reachable_iff member).2 .refl
      refine iff_of_false ?_ (not_not_intro member)
      rintro ⟨none, -⟩
      rw [← none] at here
      cases here
    · next other => exact iff_of_true rfl other
  · intro points ok
    obtain ⟨-, answer⟩ := (reach_eq_ok_iff ready small).1 ok
    split at answer
    · rw [answer.1]
      exact selection.reachable_ascending graph start
    · rw [answer]
      exact .nil
  · intro member points ok v
    obtain ⟨-, answer⟩ := (reach_eq_ok_iff ready small).1 ok
    rw [if_pos member] at answer
    rw [answer.1, Selection.mem_reachable_iff member]
    exact (and_iff_right_of_imp fun path => Selection.Reaches.isMember path member).symm
  · simp only [reach_eq_ok_iff ready small, exists_and_left]
    refine and_congr_right fun inside => ?_
    by_cases member : selection.isMember start <;> simp [member]

/-- **What is reached in a used workspace**: after any tasks, of whatever sizes and whether they
failed or not, the question what can be reached from a point is answered by paths. -/
theorem reach_answers [Memory] (before : List Task) (graph : γ) (start : Nat)
    (small : selection.pointCount < pointLimit) :
    Answers selection graph start
      ((Workspace.after before).reach selection graph start).result := by
  obtain ⟨n, -, ready⟩ := Workspace.exists_ready before
  exact answers_of_ready graph start ready small

/-- After the search that failed the storage is sized anew. After a traversal of the same selection
it is used as it was left. -/
theorem answers_twoCycles :
    onCycles.pointCount < pointLimit ∧
    (Workspace.after [.strayed]).visits.capacity ≠ onCycles.pointCount ∧
    Answers onCycles twoCycles 3
      ((Workspace.after [.strayed]).reach onCycles twoCycles 3).result ∧
    (Workspace.after [.strayed, .reach onCycles twoCycles 1]).visits.capacity =
      onCycles.pointCount ∧
    Answers onCycles twoCycles 3
      ((Workspace.after [.strayed, .reach onCycles twoCycles 1]).reach
        onCycles twoCycles 3).result := by
  have small : onCycles.pointCount < pointLimit := by decide
  have fresh : (Workspace.after [.strayed]).visits.capacity = 0 := rfl
  have left : (Workspace.after [.strayed, .reach onCycles twoCycles 1]).visits.capacity = 5 := by
    refine (Workspace.after_ready [.strayed, .reach onCycles twoCycles 1] ?_).2.size
    intro t mem
    simp only [List.mem_cons, List.not_mem_nil, or_false] at mem
    rcases mem with rfl | rfl <;> decide
  refine ⟨small, ?_, reach_answers _ _ 3 small, left, reach_answers _ _ 3 small⟩
  rw [fresh]
  decide

end Navigability
