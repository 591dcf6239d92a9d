import Navigability.Proofs.Component.Listing
import Navigability.Proofs.Component.Unbounded
import Navigability.Proofs.Entry.Ranking
import Navigability.Proofs.Reach.Unbounded
import Navigability.Proofs.Workspace.History

/-!
# Storage in 32 bits loses nothing

In a workspace that any tasks have used, the search for components and every traversal that an
analysis makes are, in 32 bits, what they are with numbers that have no bound. The search checks the
number of points before it begins, and so does a measurement. The question what can be reached from
a point does not, where it finds the storage sized for its selection; but no task has sized it for
more points than can be numbered, so no traversal ever begins on more.

## Main definitions

* `Measuring`: a measurement on its way
* `Begins`: the traversals that the analyses make, each with the storage it begins in

## Main results

* `Measuring.rest_eq`: from everywhere on its way a measurement comes to what it comes to
* `Begins.ready`: a traversal begins at a member, in storage that is ready
* `storage_lossless`: no storage in a workspace loses anything
-/

namespace Navigability

namespace Reach

open Attempt Entry

variable {γ : Type} [Adjacency γ] {selection : Selection} {graph : γ} {policy : Policy}
  {b c : Buffers} {candidates : List Candidate} {s : Measurement} {start n : Nat}

/-- A measurement on its way, from given storage: the entry points to come, and its state. -/
inductive Measuring [Memory] (selection : Selection) (graph : γ) (policy : Policy) (b : Buffers) :
    List Candidate → Measurement → Prop
  | start {candidates : List Candidate} {s : Measurement} (measures : Measures selection policy)
      (ran : (do
        onBuffers (Buffers.reset selection.pointCount)
        onBuffers (Buffers.writeDegrees selection graph) : Attempt Measurement Unit)
          { toBuffers := b } = .ok () s)
      (listed : shortlist s.degrees policy.tie policy.entryCount selection.members =
        .ok candidates) :
    Measuring selection graph policy b candidates s
  | next {candidate : Candidate} {candidates : List Candidate} {s s' : Measurement}
      (before : Measuring selection graph policy b (candidate :: candidates) s)
      (ran : measureEntry selection graph candidate s = .ok () s') :
    Measuring selection graph policy b candidates s'

/-- From everywhere on its way a measurement comes to what it comes to from the start. -/
theorem Measuring.rest_eq [Memory] (measuring : Measuring selection graph policy b candidates s) :
    measure selection graph policy { toBuffers := b } =
      measureEntries selection graph candidates s := by
  induction measuring with
  | @start candidates s measures ran listed =>
    have got : (get : Attempt Measurement Measurement) s = .ok s s := rfl
    have taken := (check_eq_ok (s := s)).2 ⟨listed, rfl⟩
    rw [measure, ← bind_assoc, bind_of_ok ran, bind_of_ok got, bind_of_ok taken]
  | next before ran ih => rw [ih, measureEntries, bind_of_ok ran]

/-- A measurement on its way has storage that is ready for no more points than can be numbered, and
members to come as entry points. -/
theorem Measuring.ready [Memory] (measuring : Measuring selection graph policy b candidates s) :
    selection.pointCount < pointLimit ∧ s.toBuffers.Ready selection.pointCount ∧
      ∀ candidate ∈ candidates, selection.isMember candidate.point := by
  induction measuring with
  | @start candidates s measures ran listed =>
    obtain ⟨u, t, reset, written⟩ := bind_eq_ok.1 ran
    have fits : selection.pointCount < pointLimit := by
      by_contra big
      rw [onBuffers, Buffers.reset, if_pos (Nat.not_lt.1 big)] at reset
      cases reset
    rw [onBuffers, Buffers.reset_of_lt fits] at reset
    cases reset
    have blank := Buffers.ready_blank selection.pointCount b.degrees
    refine ⟨fits, (onBuffers_keeps (writeDegrees_keeps_ready graph)).of_ok written blank, ?_⟩
    obtain ⟨-, rfl⟩ := shortlist_eq_ok_iff.1 listed
    exact fun candidate mem => Selection.mem_members_iff.1 (point_mem_of_mem_best mem)
  | @next candidate candidates s s' before ran ih =>
    obtain ⟨fits, ready, members⟩ := ih
    exact ⟨fits, (measureEntry_keeps_ready graph candidate).of_ok ran ready,
      (List.forall_mem_cons.1 members).2⟩

/-- The traversals that the analyses of a selection make from given storage, each with its start and
the storage it begins in: one from each entry point of a measurement, and one from a member when it
is asked what can be reached from it. -/
inductive Begins [Memory] (selection : Selection) (graph : γ) (b : Buffers) : Nat → Buffers → Prop
  | asked {start : Nat} {c : Buffers} (member : selection.isMember start)
      (prepared : Prepared selection.pointCount b c) : Begins selection graph b start c
  | measured {policy : Policy} {candidate : Candidate} {candidates : List Candidate}
      {s : Measurement}
      (measuring : Measuring selection graph policy b (candidate :: candidates) s) :
    Begins selection graph b candidate.point s.toBuffers

/-- **A traversal begins** at a member, and in storage that is ready for the points, of which there
are no more than can be numbered. -/
theorem Begins.ready [Memory] (begins : Begins selection graph b start c) (ready : b.Ready n)
    (few : n < pointLimit) : selection.pointCount < pointLimit ∧
      c.Ready selection.pointCount ∧ selection.isMember start := by
  cases begins with
  | asked member prepared => exact ⟨prepared.small ready few, prepared.ready ready, member⟩
  | measured measuring =>
    obtain ⟨fits, ready, members⟩ := measuring.ready
    exact ⟨fits, ready, members _ List.mem_cons_self⟩

end Reach

open Component Reach

variable {γ : Type} [Adjacency γ]

/-- **Storage in 32 bits loses nothing**, in a workspace that any tasks have used, of whatever sizes
and whether they failed or not. A selection whose points can be numbered is searched up to the end,
and at every stage the storage says what the numbers without a bound say. A traversal begins only
where the points can be numbered, also in storage that is used as it was found; and at every place
the storage says what the numbers without a bound say. -/
theorem storage_lossless [Memory] (selection : Selection) (graph : γ) (before : List Task) :
    (selection.pointCount < pointLimit →
      ∃ stage, Course selection graph (Workspace.after before).search stage ∧
        (stage.Done ∨ ∃ v w, stage.Fails selection graph v w)) ∧
    (∀ stage, Course selection graph (Workspace.after before).search stage →
      ∃ entered τ, stage.Lossless selection graph entered τ) ∧
    ∀ start b, Begins selection graph (Workspace.after before).visits start b →
      selection.pointCount < pointLimit ∧
      ∀ place, Itinerary selection graph start b place →
        place.Lossless selection graph start b := by
  obtain ⟨n, few, ready⟩ := Workspace.exists_ready before
  refine ⟨fun small => ?_, fun stage course => course.lossless, fun start b begins => ?_⟩
  · obtain ⟨stage, course, ⟨done, -⟩ | ⟨v, w, fails, -⟩⟩ :=
      exists_course_end graph small (Workspace.after before).search
    · exact ⟨stage, course, .inl done⟩
    · exact ⟨stage, course, .inr ⟨v, w, fails⟩⟩
  · obtain ⟨small, ready, member⟩ := begins.ready ready few
    exact ⟨small, fun place itinerary => itinerary.lossless ready small member⟩

/-- After a traversal of the same selection the storage of the traversals is used as it is found. -/
theorem lossless_twoCycles :
    Course onCycles twoCycles (Workspace.after [.reach onCycles twoCycles 1]).search
      ⟨[1, 3, 4], onTheWay 4⟩ ∧
    (∃ entered τ, Stage.Lossless onCycles twoCycles ⟨[1, 3, 4], onTheWay 4⟩ entered τ) ∧
    (Workspace.after [.reach onCycles twoCycles 1]).visits.capacity = onCycles.pointCount ∧
    ∃ depth c,
      Itinerary onCycles twoCycles 3 (Workspace.after [.reach onCycles twoCycles 1]).visits
        (.head c.queue.size depth c) ∧
      (Place.head c.queue.size depth c).Lossless onCycles twoCycles 3
        (Workspace.after [.reach onCycles twoCycles 1]).visits := by
  have unused : (Workspace.after [.reach onCycles twoCycles 1]).search = {} := rfl
  have sized : (Workspace.after [.reach onCycles twoCycles 1]).visits.capacity =
      onCycles.pointCount := by
    decide +kernel
  have member : onCycles.isMember 3 := rfl
  have found : Begins onCycles twoCycles (Workspace.after [.reach onCycles twoCycles 1]).visits 3
      (Workspace.after [.reach onCycles twoCycles 1]).visits :=
    .asked member (.asFound sized)
  obtain ⟨-, stages, traversals⟩ :=
    storage_lossless onCycles twoCycles [.reach onCycles twoCycles 1]
  obtain ⟨small, places⟩ := traversals _ _ found
  obtain ⟨n, few, ready⟩ := Workspace.exists_ready [.reach onCycles twoCycles 1]
  rcases exists_itinerary_end twoCycles (found.ready ready few).2.1 small member with
    ⟨depth, c, itinerary, -⟩ | ⟨_, _, p, _, w, _, _, -, strays, -⟩
  · refine ⟨?_, stages _ ?_, sized, depth, c, itinerary, places _ itinerary⟩
    · exact unused ▸ course_onTheWay
    · exact unused ▸ course_onTheWay
  · have intact := (components_succeeds_iff twoCycles small {}).1 ⟨_, components_twoCycles {}⟩
    exact absurd strays.frays (intact p)

end Navigability
