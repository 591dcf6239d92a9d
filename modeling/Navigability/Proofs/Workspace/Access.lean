import Navigability.Proofs.Workspace.Failure
import Navigability.Proofs.Workspace.Reach

/-!
# Every access lies inside the storage

The analyses read and write their storage by position, and they count in 32 bits. An access outside
the storage, or a counter at its limit, is a fault: it ends the analysis at once, and nothing that
comes later hides it. So an analysis that does not end with such a fault has made no such access.
Most of the accesses are inside only by what is known of the whole run, that whatever waits on a
path, on a trail or in a queue is a point, and the storage of traversals may be used as an earlier
task left it. None of the analyses ends with such a fault, on whatever rows and after whatever
tasks. What is left are the answer, the row of a member that strays, a start that is no point, and a
measurement that asks for more room than it is given.

## Main definitions

* `Endings`: how an analysis may end
* `InsideStorage`: a result with one of the endings, and so without an access outside
* `Selection.Refuses`, `Reach.Refuses`: why a start or a measurement is refused

## Main results

* `FailsOn.ends`: the endings of an analysis that fails on rows alone
* `coverage_ends`, `reach_ends`: those of a measurement, and of a traversal from a start
* `accesses_inside`: no analysis makes an access outside, in a workspace that any tasks have used
-/

namespace Navigability

open Attempt

variable {γ : Type} [Adjacency γ] {selection : Selection} {graph : γ} {α : Type}

/-- How an analysis may end: with an answer, with the first number in the row of a member that is no
point, or because it was refused. -/
inductive Endings (selection : Selection) (graph : γ) (refused : Failure → Prop) :
    Except Failure α → Prop
  | answered (answer : α) : Endings selection graph refused (.ok answer)
  | strayed {p w : Nat} (strays : selection.Strays graph p w) :
    Endings selection graph refused (.error (.neighborOutOfRange p w selection.pointCount))
  | refused {failure : Failure} (cause : refused failure) :
    Endings selection graph refused (.error failure)

/-- The result of an analysis that made no access outside its storage and brought no counter to its
limit. -/
structure InsideStorage (selection : Selection) (graph : γ) (refused : Failure → Prop)
    (result : Except Failure α) : Prop where
  ends : Endings selection graph refused result
  in_range : ∀ index size, result ≠ .error (.fault (.outOfStorage index size))
  below_limit : result ≠ .error (.fault .counterLimit)

variable {watched blamed : Nat → Prop} {refused : Failure → Prop} {result : Except Failure α}

theorem Endings.inside (ends : Endings selection graph refused result)
    (in_range : ∀ index size, ¬ refused (.fault (.outOfStorage index size)))
    (below_limit : ¬ refused (.fault .counterLimit)) :
    InsideStorage selection graph refused result := by
  refine ⟨ends, fun index size failed => ?_, fun failed => ?_⟩
  · subst failed
    cases ends with
    | refused cause => exact in_range index size cause
  · subst failed
    cases ends with
    | refused cause => exact below_limit cause

/-- **An analysis that fails on rows alone** answers, or names the row of a member that strays. -/
theorem FailsOn.ends (fails : FailsOn selection graph watched blamed result)
    (refused : Failure → Prop) : Endings selection graph refused result := by
  cases result with
  | ok answer => exact .answered answer
  | error failure =>
    obtain ⟨p, w, -, strays, rfl⟩ := fails.blames failure rfl
    exact .strayed strays

theorem FailsOn.inside (fails : FailsOn selection graph watched blamed result) :
    InsideStorage selection graph (fun _ => False) result :=
  (fails.ends _).inside (fun _ _ => id) id

/-! ## What is refused -/

/-- The failure of a start that is none of the points of a selection. -/
def Selection.Refuses (selection : Selection) (start : Nat) (failure : Failure) : Prop :=
  selection.pointCount ≤ start ∧ failure = .entryOutOfRange start selection.pointCount

/-- The end of a measurement that is not given the room that it asks for. It asks when the degrees
are written, and so no row of a member frays. -/
def Reach.Refuses [Memory] (selection : Selection) (graph : γ) (policy : Policy)
    (failure : Failure) : Prop :=
  ¬ Granted selection policy ∧ (∀ p, ¬ selection.Frays graph p) ∧
    failure = .fault (.outOfMemory (Entry.reservation policy.entryCount))

/-- **A measurement** answers, or names the row of a member that strays, or is refused the room that
it asks for. -/
theorem coverage_ends [Memory] (graph : γ) (small : selection.pointCount < pointLimit)
    (policy : Reach.Policy) (buffers : Reach.Buffers) :
    Endings selection graph (Reach.Refuses selection graph policy)
      (selection.coverage graph policy buffers).result := by
  by_cases granted : Reach.Granted selection policy
  · by_cases wanted : policy.entryCount = 0
    · have idle : ¬ Reach.Measures selection policy := fun measures => measures.2 wanted
      rw [Reach.coverage_of_not_measures graph idle]
      exact .answered _
    · exact (coverage_failsOn graph small wanted granted buffers).ends _
  · obtain ⟨measures, -⟩ := Classical.not_imp.1 granted
    by_cases frays : ∃ p, selection.Frays graph p
    · obtain ⟨p, w, -, strays, failed⟩ :=
        Reach.coverage_of_frays measures.2 small frays buffers
      rw [failed]
      exact .strayed strays
    · rw [not_exists] at frays
      rw [Reach.coverage_of_refused granted small frays]
      exact .refused ⟨granted, frays, rfl⟩

theorem coverage_eq_refused_iff [Memory] (graph : γ) (small : selection.pointCount < pointLimit)
    (policy : Reach.Policy) (buffers : Reach.Buffers) (bytes : Nat) :
    (selection.coverage graph policy buffers).result = .error (.fault (.outOfMemory bytes)) ↔
      Reach.Refuses selection graph policy (.fault (.outOfMemory bytes)) := by
  have ends := coverage_ends graph small policy buffers
  constructor
  · intro failed
    rw [failed] at ends
    cases ends with
    | refused cause => exact cause
  · rintro ⟨granted, intact, same⟩
    rw [same]
    exact Reach.coverage_of_refused granted small intact buffers

/-- **A traversal from a start** answers, or names the row of a member that strays, or the start is
refused. -/
theorem reach_ends (graph : γ) (small : selection.pointCount < pointLimit) (start : Nat)
    {buffers : Reach.Buffers} {n : Nat} (ready : buffers.Ready n) :
    Endings selection graph (selection.Refuses start)
      (selection.reach graph start buffers).result := by
  rcases Nat.lt_or_ge start selection.pointCount with inside | outside
  · by_cases member : selection.isMember start
    · exact (reach_failsOn small member ready).ends _
    · rw [Selection.reach, Reach.reached_not_member graph inside member]
      exact .answered _
  · rw [Selection.reach, Reach.reached_outside graph outside]
    exact .refused ⟨outside, rfl⟩

/-! ## All analyses -/

/-- **Every access lies inside the storage.** In a workspace that any tasks have used, of whatever
sizes and whether they failed or not, and with degrees in storage that holds anything, no analysis
makes an access outside its storage. The search for components and the degrees answer or name the
row of a member that strays, and so does the question what can be reached from a start; its only
other failure is that of a start that is no point, which is always refused. A measurement answers or
names such a row too; only if no row frays and it is not given the room for its entry points, it
ends where it asks for that. -/
theorem accesses_inside [Memory] (selection : Selection) (graph : γ)
    (small : selection.pointCount < pointLimit) (before : List Task) :
    InsideStorage selection graph (fun _ => False)
      ((Workspace.after before).components selection graph).result ∧
    (∀ degrees, InsideStorage selection graph (fun _ => False)
      (outcome (selection.writeDegrees graph degrees))) ∧
    (∀ policy, InsideStorage selection graph (Reach.Refuses selection graph policy)
        ((Workspace.after before).coverage selection graph policy).result ∧
      ∀ bytes, ((Workspace.after before).coverage selection graph policy).result =
          .error (.fault (.outOfMemory bytes)) ↔
        Reach.Refuses selection graph policy (.fault (.outOfMemory bytes))) ∧
    ∀ start, InsideStorage selection graph (selection.Refuses start)
        ((Workspace.after before).reach selection graph start).result ∧
      ∀ e n, ((Workspace.after before).reach selection graph start).result =
          .error (.entryOutOfRange e n) ↔
        selection.pointCount ≤ start ∧ e = start ∧ n = selection.pointCount := by
  obtain ⟨n, -, ready⟩ := Workspace.exists_ready before
  refine ⟨(components_failsOn graph small (Workspace.after before).search).inside,
    fun degrees => (writeDegrees_failsOn selection graph degrees).inside,
    fun policy => ⟨?_, coverage_eq_refused_iff graph small policy _⟩,
    fun start => ⟨?_, Reach.reach_eq_outside_iff ready small⟩⟩
  · refine (coverage_ends graph small policy _).inside (fun index size refused => ?_)
      fun refused => ?_
    · cases refused.2.2
    · cases refused.2.2
  · refine (reach_ends graph small start ready).inside (fun index size refused => ?_)
      fun refused => ?_
    · cases refused.2
    · cases refused.2

open Reach in
/-- The measurement of a point alone has another end than an answer or a row that strays, on any
machine, if it asks for room for as many entry points as there are numbers of 64 bits but two. -/
theorem coverage_alone_ends_otherwise :
    alone.pointCount < pointLimit ∧
    ∀ [Memory], ¬ Endings alone nowhere (fun _ => False)
      ((Workspace.after []).coverage alone nowhere { entryCount := 2 ^ 64 - 2 }).result := by
  have small : alone.pointCount < pointLimit := by decide
  have intact := Selection.not_frays_of_inside inside_nowhere
  refine ⟨small, fun {_} ends => ?_⟩
  have refused : ((Workspace.after []).coverage alone nowhere
      { entryCount := 2 ^ 64 - 2 }).result = _ :=
    coverage_of_refused not_granted_alone small intact (Workspace.after []).visits
  rw [refused] at ends
  cases ends with
  | refused cause => exact cause

/-- Rows that fray, after a search that failed on fewer points: the search for components and the
degrees fail, and so does a start that is no point, none of them by an access outside. -/
theorem accesses_torn :
    onTorn.pointCount < pointLimit ∧
    (∀ index size, ((Workspace.after [.strayed]).components onTorn torn).result ≠
      .error (.fault (.outOfStorage index size))) ∧
    outcome (onTorn.writeDegrees torn #[7]) = .error (.neighborOutOfRange 1 9 5) ∧
    (∀ index size, ((Workspace.after [.strayed]).coverage onTorn torn {}).result ≠
      .error (.fault (.outOfStorage index size))) ∧
    (∀ index size, ((Workspace.after [.strayed]).reach onTorn torn 2).result ≠
      .error (.fault (.outOfStorage index size))) ∧
    ((Workspace.after [.strayed]).reach onTorn torn 8).result =
      .error (.entryOutOfRange 8 5) := by
  have small : onTorn.pointCount < pointLimit := by decide
  obtain ⟨components, -, coverage, reach⟩ := accesses_inside onTorn torn small [.strayed]
  exact ⟨small, components.in_range, by decide, (coverage {}).1.in_range, (reach 2).1.in_range,
    ((reach 8).2 8 5).2 ⟨by decide, rfl, rfl⟩⟩

end Navigability
