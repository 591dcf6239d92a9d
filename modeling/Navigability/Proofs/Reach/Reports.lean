import Mathlib.Data.List.Forall2
import Navigability.Proofs.Reach.Coverage

/-!
# What a measurement reports

The degrees are written before the first traversal, and that reads the row of every member. If it
succeeds no row frays, and since a traversal takes nothing but members from its queue, none of the
traversals to come can fail, however many there are and whatever storage they share. The room for
the entry points is reserved before the first traversal as well. So a measurement fails before it
has reported anything, or it reports each of its entry points when the traversal from there is
complete, and the whole coverage at the end.

## Main definitions

* `EntryReach.ReportedBy`, `Coverage.ReportedBy`: what an event says of an entry point, and of a
  whole coverage

## Main results

* `traverse_stamp_ne_zero`: a traversal leaves its stamp in the storage
* `traverse_of_written`: no traversal fails where the degrees can be written
* `coverage_of_error`: what a measurement that fails has done
* `coverage_reported`: what a measurement has reported when it ends
-/

namespace Navigability.Reach

open Attempt

/-- An event that says of an entry point what its entry in the coverage says. -/
structure EntryReach.ReportedBy (entry : EntryReach) (event : Event) : Prop where
  level : event.level = .debug
  message : event.message = "seed traversal finished"
  data : event.data = [("seed", .number entry.point), ("degree", .number entry.degree),
    ("reachable", .number entry.reached), ("max_depth", .number entry.depth)]

/-- An event that says what a whole coverage comes to. -/
structure Coverage.ReportedBy (coverage : Coverage) (event : Event) : Prop where
  level : event.level = .info
  message : event.message = "reachability profiled"
  data : event.data = [("label", .text coverage.label),
    ("members", .number coverage.memberCount), ("seeds", .number coverage.entries.length),
    ("union_coverage", .number coverage.covered)]

theorem EntryReach.reportedBy_event (entry : EntryReach) : entry.ReportedBy entry.event :=
  ⟨rfl, rfl, rfl⟩

theorem Coverage.reportedBy_event (coverage : Coverage) : coverage.ReportedBy coverage.event :=
  ⟨rfl, rfl, rfl⟩

variable {γ : Type} [Adjacency γ] {selection : Selection} {graph : γ}

/-! ## Traversals -/

/-- **A traversal leaves its stamp** in the storage, in success and in failure. Storage in which the
marks were erased has the stamp zero until then. -/
theorem traverse_stamp_ne_zero (selection : Selection) (graph : γ) (start : Nat) (b : Buffers) :
    (left (traverse selection graph start b)).stamp ≠ 0 := by
  have visits : ∀ p, Keeps (fun b => b.stamp ≠ 0) (visit p) := by
    intro p b holds
    rw [visit]
    split
    · split <;> exact holds
    · exact holds
  have enqueues : ∀ p level, Keeps (fun b => b.stamp ≠ 0) (enqueue p level) :=
    fun p level b holds => holds
  obtain ⟨c, restarted, value⟩ := restart_stamp b
  have nonzero : c.stamp ≠ 0 := by
    intro zero
    rw [zero] at value
    split at value <;> cases value
  rw [traverse, bind_of_ok restarted]
  refine Keeps.bind (visits start) (fun _ => .bind (enqueues start 0) fun _ => ?_) c nonzero
  exact .bind (sweep_keeps visits enqueues selection graph 0 0) fun _ => .pure _

/-- **No traversal fails where the degrees can be written**, whatever traversals have used the
storage before. -/
theorem traverse_of_written (small : selection.pointCount < pointLimit) {degrees : Array UInt32}
    (written : outcome (selection.writeDegrees graph degrees) = .ok ()) {start : Nat}
    (member : selection.isMember start) {b : Buffers} (ready : b.Ready selection.pointCount) :
    ∃ depth c, traverse selection graph start b = .ok depth c ∧ c.Ready selection.pointCount := by
  have intact := (Selection.writeDegrees_eq_ok_iff degrees).1 written
  obtain ⟨c, ran, sound, -⟩ := traverse_of_intact ready small member fun p _ => intact p
  exact ⟨_, c, ran, sound.ready⟩

/-! ## Measurements -/

section Memory

variable [Memory] {policy : Policy}

/-- **A measurement that fails** has erased the marks and gone as far with the degrees as they could
be written, and has done nothing else. -/
theorem coverage_of_error (small : selection.pointCount < pointLimit) {b : Buffers}
    {failure : Failure} (failed : (selection.coverage graph policy b).result = .error failure) :
    selection.coverage graph policy b =
      { result := .error failure
        state := { marks := Array.replicate selection.pointCount {}
                   degrees := left (selection.writeDegrees graph b.degrees) }
        reports := [] } := by
  obtain ⟨measures, ended⟩ := (coverage_fails_iff small b failure).1 failed
  cases written : selection.writeDegrees graph b.degrees with
  | ok u degrees =>
    rw [written] at ended
    obtain ⟨-, full, rfl⟩ := ended.resolve_left nofun
    have intact := (Selection.writeDegrees_eq_ok_iff b.degrees).1 (by rw [written]; rfl)
    rw [Selection.writeDegrees_of_intact intact] at written
    cases written
    rw [coverage_of_not_hasRoom measures (fun room => full fun _ => room) small intact]
    rfl
  | error cause degrees =>
    rw [written] at ended
    obtain rfl := Except.error.inj (ended.resolve_right fun ok => nomatch ok.1)
    rw [coverage_of_unwritten measures small written]
    rfl

/-- **A measurement fails before it reports anything, or not at all.** If it fails, nothing was
reported, and no traversal has left its stamp in the storage; a failure that it returns is that of
the degrees, which could not be written. If the degrees can be written, it does not fail where it is
given the room for its entry points, and neither does any traversal from a member, whatever
traversals have used the storage before. Without members, and if no entry points are wanted, it
reports that and leaves the storage as it was, whatever the rows are. Else it has reported each of
its entry points, in the order of the coverage, and then the whole coverage. -/
theorem coverage_reported (selection : Selection) (graph : γ) (policy : Policy)
    (small : selection.pointCount < pointLimit) (b : Buffers) :
    (∀ failure, (selection.coverage graph policy b).result = .error failure →
      (selection.coverage graph policy b).reports = [] ∧
      (selection.coverage graph policy b).state =
        { marks := Array.replicate selection.pointCount {}
          stamp := 0
          queue := #[]
          degrees := left (selection.writeDegrees graph b.degrees) } ∧
      (failure.Returned → outcome (selection.writeDegrees graph b.degrees) = .error failure)) ∧
    (∀ start c, (left (traverse selection graph start c)).stamp ≠ 0) ∧
    (outcome (selection.writeDegrees graph b.degrees) = .ok () →
      (Granted selection policy →
        ∃ coverage, (selection.coverage graph policy b).result = .ok coverage) ∧
      ∀ start, selection.isMember start → ∀ c : Buffers, c.Ready selection.pointCount →
        ∃ depth d, traverse selection graph start c = .ok depth d ∧
          d.Ready selection.pointCount) ∧
    (selection.memberCount = 0 ∨ policy.entryCount = 0 → ∃ event,
      selection.coverage graph policy b =
        { result := .ok (.empty selection), state := b, reports := [event] } ∧
      event.level = .info ∧ event.message = "nothing to profile" ∧
      event.data = [("label", .text selection.label),
        ("members", .number selection.memberCount)]) ∧
    (¬ (selection.memberCount = 0 ∨ policy.entryCount = 0) → ∀ coverage,
      (selection.coverage graph policy b).result = .ok coverage → ∃ events event,
        (selection.coverage graph policy b).reports = events ++ [event] ∧
        List.Forall₂ EntryReach.ReportedBy coverage.entries events ∧
        coverage.ReportedBy event) := by
  refine ⟨fun failure failed => ⟨?_, ?_, fun returned => ?_⟩,
    traverse_stamp_ne_zero selection graph, fun written => ⟨fun granted => ?_, fun start member c =>
      traverse_of_written small written member⟩, fun idle => ?_, fun busy coverage ok => ?_⟩
  · rw [coverage_of_error small failed]
  · rw [coverage_of_error small failed]
  · exact ((coverage_returns_iff small b returned).1 failed).2
  · have intact := (Selection.writeDegrees_eq_ok_iff b.degrees).1 written
    exact ⟨_, coverage_of_intact granted small intact b⟩
  · have nothing : ¬ Measures selection policy := fun measures => measures.not_idle idle
    exact ⟨_, coverage_of_not_measures graph nothing b, rfl, rfl, rfl⟩
  · have measures : Measures selection policy := not_or.1 busy
    obtain ⟨rfl, granted, intact⟩ := (coverage_eq_ok_iff small b).1 ok
    obtain ⟨state, ran⟩ :=
      coverage_run_of_intact measures (granted measures) small (intact measures) b
    rw [ran]
    refine ⟨_, _, rfl, ?_, Coverage.reportedBy_event _⟩
    rw [List.forall₂_map_right_iff, List.forall₂_same]
    exact fun entry _ => entry.reportedBy_event

end Memory

theorem reported_fork :
    onFork.pointCount < pointLimit ∧
    (onFork.coverage fork { entryCount := 2, tie := .highestFirst } {}).result =
      .ok ⟨"fork", 4, [⟨0, 2, 3, 2⟩, ⟨4, 1, 3, 2⟩], 4⟩ ∧
    (∃ events event,
      (onFork.coverage fork { entryCount := 2, tie := .highestFirst } {}).reports =
        events ++ [event] ∧
      List.Forall₂ EntryReach.ReportedBy [⟨0, 2, 3, 2⟩, ⟨4, 1, 3, 2⟩] events ∧
      event.level = .info) ∧
    (onFork.coverage (RowGraph.ofRows [[1], [5]]) {} {}).result =
      .error (.neighborOutOfRange 1 5 5) ∧
    (onFork.coverage (RowGraph.ofRows [[1], [5]]) {} {}).reports = [] := by
  have small : onFork.pointCount < pointLimit := by decide
  have ok : (onFork.coverage fork { entryCount := 2, tie := .highestFirst } {}).result =
      .ok ⟨"fork", 4, [⟨0, 2, 3, 2⟩, ⟨4, 1, 3, 2⟩], 4⟩ := by
    decide +kernel
  have failed : (onFork.coverage (RowGraph.ofRows [[1], [5]]) {} {}).result =
      .error (.neighborOutOfRange 1 5 5) := by
    decide +kernel
  obtain ⟨-, -, -, -, reports⟩ :=
    coverage_reported onFork fork { entryCount := 2, tie := .highestFirst } small {}
  obtain ⟨events, event, shape, entries, whole⟩ := reports (by decide) _ ok
  obtain ⟨silent, -⟩ := coverage_reported onFork (RowGraph.ofRows [[1], [5]]) {} small {}
  exact ⟨small, ok, ⟨events, event, shape, entries, whole.level⟩, failed, (silent _ failed).1⟩

end Navigability.Reach
