import Navigability.Proofs.Component.Listing
import Navigability.Proofs.Reach.Coverage
import Navigability.Proofs.Workspace.History

/-!
# One condition of failure

All analyses fail for one reason: the row of a member frays. The search for components, the degrees
and a measurement read the rows of all members, so each of them fails when any row frays, and else
does not. A traversal reads the rows of the members that it reaches. Every failure names a member
whose row frays and the first number in its row that is no point. The degrees are written in
ascending order, so theirs is the least such member; a traversal goes by distance, so its is a
nearest one. The rows of points that are not selected are never read. A measurement that is not
given the room that it asks for returns no failure, but ends there.

## Main definitions

* `ReturnsOn`: a result that returns a failure just when one of the watched rows frays
* `FailsOn`: the same of a result that is no fault

## Main results

* `failures_agree`: on which rows the analyses fail, and what they name
-/

namespace Navigability

open Attempt

variable {γ : Type} [Adjacency γ] {selection : Selection} {graph : γ} {α : Type}

/-- A result that returns a failure just when the row of a watched member frays. The failure names a
member that is to be blamed, and the first number in its row that is no point. -/
structure ReturnsOn (selection : Selection) (graph : γ) (watched blamed : Nat → Prop)
    (result : Except Failure α) : Prop where
  returns_iff : (∃ failure, failure.Returned ∧ result = .error failure) ↔
    ∃ p, watched p ∧ selection.Frays graph p
  blames : ∀ failure, failure.Returned → result = .error failure →
    ∃ p w, blamed p ∧ selection.Strays graph p w ∧
      failure = .neighborOutOfRange p w selection.pointCount

/-- A result that is a failure just when the row of a watched member frays. The failure names a
member that is to be blamed, and the first number in its row that is no point. -/
structure FailsOn (selection : Selection) (graph : γ) (watched blamed : Nat → Prop)
    (result : Except Failure α) : Prop where
  fails_iff : (∃ failure, result = .error failure) ↔ ∃ p, watched p ∧ selection.Frays graph p
  blames : ∀ failure, result = .error failure → ∃ p w, blamed p ∧ selection.Strays graph p w ∧
    failure = .neighborOutOfRange p w selection.pointCount

namespace FailsOn

variable {watched blamed : Nat → Prop}

theorem of_ok {result : Except Failure α} {a : α} (ok : result = .ok a)
    (intact : ∀ p, watched p → ¬ selection.Frays graph p) :
    FailsOn selection graph watched blamed result := by
  subst ok
  constructor
  · simpa using fun p watch => intact p watch
  · simp

theorem of_error {result : Except Failure α} {p w : Nat}
    (failed : result = .error (.neighborOutOfRange p w selection.pointCount))
    (watch : watched p) (blame : blamed p) (strays : selection.Strays graph p w) :
    FailsOn selection graph watched blamed result := by
  subst failed
  constructor
  · exact ⟨fun _ => ⟨p, watch, strays.frays⟩, fun _ => ⟨_, rfl⟩⟩
  · intro failure same
    exact ⟨p, w, blame, strays, (Except.error.inj same).symm⟩

/-- What names a row that frays is returned. -/
theorem returnsOn {result : Except Failure α}
    (fails : FailsOn selection graph watched blamed result) :
    ReturnsOn selection graph watched blamed result := by
  refine ⟨?_, fun failure _ => fails.blames failure⟩
  rw [← fails.fails_iff]
  refine ⟨fun ⟨failure, _, failed⟩ => ⟨failure, failed⟩, fun ⟨failure, failed⟩ => ?_⟩
  obtain ⟨p, w, -, -, rfl⟩ := fails.blames failure failed
  exact ⟨.neighborOutOfRange p w selection.pointCount, trivial, failed⟩

end FailsOn

/-! ## The analyses one by one -/

theorem components_failsOn (graph : γ) (small : selection.pointCount < pointLimit)
    (buffers : Component.Buffers) :
    FailsOn selection graph (selection.isMember ·) (selection.Frays graph)
      (selection.components graph buffers).result := by
  rcases Component.components_ends graph small buffers with
    ⟨listing, ok, sound⟩ | ⟨v, w, failed, strays⟩
  · exact .of_ok ok fun p _ => sound.intact p
  · exact .of_error failed strays.member strays.frays strays

theorem writeDegrees_failsOn (selection : Selection) (graph : γ) (degrees : Array UInt32) :
    FailsOn selection graph (selection.isMember ·) (IsLeast {q | selection.Frays graph q})
      (outcome (selection.writeDegrees graph degrees)) := by
  by_cases frays : ∃ p, selection.Frays graph p
  · obtain ⟨p, w, least, strays, ran⟩ := Selection.writeDegrees_of_frays frays degrees
    exact .of_error (by rw [ran, outcome]) strays.member least strays
  · rw [not_exists] at frays
    exact .of_ok (by rw [Selection.writeDegrees_of_intact frays, outcome]) fun p _ => frays p

theorem innerDegrees_failsOn (selection : Selection) (graph : γ) :
    FailsOn selection graph (selection.isMember ·) (IsLeast {q | selection.Frays graph q})
      (selection.innerDegrees graph) := by
  by_cases frays : ∃ p, selection.Frays graph p
  · obtain ⟨p, w, least, strays, ran⟩ := Selection.writeDegrees_of_frays frays #[]
    exact .of_error (by rw [Selection.innerDegrees, ran]) strays.member least strays
  · rw [not_exists] at frays
    exact .of_ok (by rw [Selection.innerDegrees, Selection.writeDegrees_of_intact frays])
      fun p _ => frays p

theorem coverage_failsOn [Memory] (graph : γ) (small : selection.pointCount < pointLimit)
    {policy : Reach.Policy} (wanted : policy.entryCount ≠ 0)
    (granted : Reach.Granted selection policy) (buffers : Reach.Buffers) :
    FailsOn selection graph (selection.isMember ·) (IsLeast {q | selection.Frays graph q})
      (selection.coverage graph policy buffers).result := by
  by_cases frays : ∃ p, selection.Frays graph p
  · obtain ⟨p, w, least, strays, failed⟩ := Reach.coverage_of_frays wanted small frays buffers
    exact .of_error failed strays.member least strays
  · rw [not_exists] at frays
    exact .of_ok (Reach.coverage_of_intact granted small frays buffers) fun p _ => frays p

/-- A measurement that is not given the room that it asks for returns no other failures. -/
theorem coverage_returnsOn [Memory] (graph : γ) (small : selection.pointCount < pointLimit)
    {policy : Reach.Policy} (wanted : policy.entryCount ≠ 0) (buffers : Reach.Buffers) :
    ReturnsOn selection graph (selection.isMember ·) (IsLeast {q | selection.Frays graph q})
      (selection.coverage graph policy buffers).result := by
  by_cases granted : Reach.Granted selection policy
  · exact (coverage_failsOn graph small wanted granted buffers).returnsOn
  · by_cases frays : ∃ p, selection.Frays graph p
    · obtain ⟨p, w, least, strays, failed⟩ := Reach.coverage_of_frays wanted small frays buffers
      exact (FailsOn.of_error failed strays.member least strays).returnsOn
    · rw [not_exists] at frays
      rw [Reach.coverage_of_refused granted small frays]
      refine ⟨iff_of_false ?_ fun ⟨p, _, fray⟩ => frays p fray, fun failure returned same => ?_⟩
      · rintro ⟨failure, returned, same⟩
        cases same
        exact returned
      · cases same
        exact returned.elim

theorem reach_failsOn (small : selection.pointCount < pointLimit) {start n : Nat}
    (member : selection.isMember start) {buffers : Reach.Buffers} (ready : buffers.Ready n) :
    FailsOn selection graph (selection.Reaches graph start)
      (selection.Nearest graph start (selection.Frays graph))
      (selection.reach graph start buffers).result := by
  by_cases frays : ∃ p, selection.Reaches graph start p ∧ selection.Frays graph p
  · obtain ⟨p, w, failed, strays, nearest⟩ := Reach.reach_of_frays ready small member frays
    exact .of_error failed nearest.reaches nearest strays
  · have intact : ∀ p, selection.Reaches graph start p → ¬ selection.Frays graph p :=
      fun p path fray => frays ⟨p, path, fray⟩
    exact .of_ok (Reach.reach_of_intact ready small member intact) intact

/-! ## All analyses -/

/-- **All analyses fail on the same rows.** In a workspace that any tasks have used, the search for
components and a measurement with entry points fail just when the row of a member frays, and so do
the degrees; a traversal fails just when the row of a member that it reaches frays. Degrees and
measurements name the least member whose row frays, and a traversal names a nearest one. All that a
measurement returns is such a failure also where it is not given the room that it asks for. -/
theorem failures_agree [Memory] (selection : Selection) (graph : γ)
    (small : selection.pointCount < pointLimit) (before : List Task) :
    FailsOn selection graph (selection.isMember ·) (selection.Frays graph)
      ((Workspace.after before).components selection graph).result ∧
    FailsOn selection graph (selection.isMember ·) (IsLeast {q | selection.Frays graph q})
      (selection.innerDegrees graph) ∧
    (∀ degrees,
      FailsOn selection graph (selection.isMember ·) (IsLeast {q | selection.Frays graph q})
        (outcome (selection.writeDegrees graph degrees))) ∧
    (∀ policy : Reach.Policy, policy.entryCount ≠ 0 →
      ReturnsOn selection graph (selection.isMember ·) (IsLeast {q | selection.Frays graph q})
        ((Workspace.after before).coverage selection graph policy).result ∧
      (Reach.Granted selection policy →
        FailsOn selection graph (selection.isMember ·) (IsLeast {q | selection.Frays graph q})
          ((Workspace.after before).coverage selection graph policy).result)) ∧
    ∀ start, selection.isMember start → FailsOn selection graph (selection.Reaches graph start)
      (selection.Nearest graph start (selection.Frays graph))
      ((Workspace.after before).reach selection graph start).result := by
  obtain ⟨n, -, ready⟩ := Workspace.exists_ready before
  exact ⟨components_failsOn graph small (Workspace.after before).search,
    innerDegrees_failsOn selection graph, writeDegrees_failsOn selection graph,
    fun policy wanted => ⟨coverage_returnsOn graph small wanted (Workspace.after before).visits,
      fun granted => coverage_failsOn graph small wanted granted (Workspace.after before).visits⟩,
    fun start member => reach_failsOn small member ready⟩

/-- Two rows of members that fray, and the row of another point that does. -/
def torn : RowGraph := .ofRows [[1], [2, 9, 8], [], [7], [6]]

/-- All points of the torn graph but one. -/
def onTorn : Selection := ⟨"torn", #[true, true, true, false, true]⟩

theorem failures_torn :
    onTorn.pointCount < pointLimit ∧
    (∃ failure, ((Workspace.after [.strayed]).components onTorn torn).result =
      .error failure) ∧
    (∃ p w, IsLeast {q | onTorn.Frays torn q} p ∧ onTorn.Strays torn p w ∧
      (onTorn.innerDegrees torn) = .error (.neighborOutOfRange p w 5)) ∧
    ¬ ∃ failure, ((Workspace.after [.strayed]).reach onTorn torn 2).result = .error failure := by
  have small : onTorn.pointCount < pointLimit := by decide
  have frays : onTorn.Frays torn 1 := ⟨rfl, 9, by decide, by decide⟩
  obtain ⟨components, degrees, -, -, reach⟩ := failures_agree onTorn torn small [.strayed]
  refine ⟨small, components.fails_iff.2 ⟨1, rfl, frays⟩, ?_, fun failed => ?_⟩
  · obtain ⟨failure, failed⟩ := degrees.fails_iff.2 ⟨1, rfl, frays⟩
    obtain ⟨p, w, least, strays, rfl⟩ := degrees.blames failure failed
    exact ⟨p, w, least, strays, failed⟩
  · have empty : Adjacency.row torn 2 = [] := rfl
    obtain ⟨p, path, frays⟩ := (reach 2 rfl).fails_iff.1 failed
    obtain rfl : 2 = p := by
      refine path.of_closed (fun u two v step => ?_) rfl
      have neighbor := step.neighbor
      rw [← two, empty] at neighbor
      exact absurd neighbor List.not_mem_nil
    obtain ⟨w, mem, -⟩ := frays.outside
    rw [empty] at mem
    exact absurd mem List.not_mem_nil

end Navigability
