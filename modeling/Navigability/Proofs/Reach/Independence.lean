import Navigability.Proofs.Reach.Reuse
import Navigability.Proofs.Selection.Degree

/-!
# Analyses in storage that was used

A measurement of coverage erases the marks and writes the degrees anew before it reads either, so
it is the same run in any storage. The search for the points that can be reached uses marks it
finds, but a traversal does not depend on them. Both leave the storage ready for the next one, in
success and in failure, and sized for their own selection.

## Main definitions

* `Measures`: whether a measurement has anything to measure
* `Granted`: whether it is given the room that it asks for
* `Prepared n`: the storage that a traversal of `n` points is made in

## Main results

* `coverage_eq_blank`: a measurement that uses storage is the same run in any storage
* `coverage_ready`: it leaves the storage ready
* `reach_independent`: what can be reached does not depend on the storage, which is left ready
-/

namespace Navigability.Reach

open Attempt

variable {γ : Type} [Adjacency γ] {selection : Selection} {n : Nat} {b : Buffers}

/-! ## Coverage -/

/-- Whether a measurement has anything to measure. If not, it uses no storage. -/
def Measures (selection : Selection) (policy : Policy) : Prop :=
  selection.memberCount ≠ 0 ∧ policy.entryCount ≠ 0

/-- Whether a measurement is given the room that it asks for. It asks for none where it has nothing
to measure. -/
def Granted [Memory] (selection : Selection) (policy : Policy) : Prop :=
  Measures selection policy → Entry.HasRoom policy.entryCount

theorem Measures.not_idle {policy : Policy} (measures : Measures selection policy) :
    ¬ (selection.memberCount = 0 ∨ policy.entryCount = 0) :=
  fun idle => idle.elim measures.1 measures.2

theorem coverage_of_not_measures [Memory] (graph : γ) {policy : Policy}
    (idle : ¬ Measures selection policy) (b : Buffers) : selection.coverage graph policy b =
      { result := .ok (.empty selection)
        state := b
        reports := [.nothingToMeasure selection.label selection.memberCount] } := by
  have empty : selection.memberCount = 0 ∨ policy.entryCount = 0 := by
    unfold Measures at idle
    omega
  rw [Selection.coverage, if_pos empty]

/-- The degrees are written over whatever is there. -/
theorem writeDegrees_eq (graph : γ) (marks : Array Mark) (degrees degrees' : Array UInt32) :
    Buffers.writeDegrees selection graph { marks, degrees } =
      Buffers.writeDegrees selection graph { marks, degrees := degrees' } := by
  rw [Buffers.writeDegrees, Buffers.writeDegrees, Selection.writeDegrees_eq_store,
    Selection.writeDegrees_eq_store]

/-- A measurement goes on from erased marks. -/
theorem measure_eq [Memory] (graph : γ) (policy : Policy)
    (small : selection.pointCount < pointLimit) (b : Buffers) :
    measure selection graph policy { toBuffers := b } =
      (onBuffers (Buffers.writeDegrees selection graph) >>= fun _ => do
        measureEntries selection graph
          (← Attempt.check
            (Entry.shortlist (← get).degrees policy.tie policy.entryCount selection.members)))
        { marks := Array.replicate selection.pointCount {}, degrees := b.degrees } := by
  have erased : onBuffers (Buffers.reset selection.pointCount) { toBuffers := b } =
      .ok () { marks := Array.replicate selection.pointCount {}, degrees := b.degrees } := by
    rw [onBuffers, Buffers.reset_of_lt small]
  rw [measure, bind_of_ok erased]

/-- **A measurement is the same run in any storage**, if it uses storage at all. -/
theorem coverage_eq_blank [Memory] (graph : γ) {policy : Policy}
    (measures : Measures selection policy) (small : selection.pointCount < pointLimit)
    (b : Buffers) :
    selection.coverage graph policy b = selection.coverage graph policy {} := by
  have same : measure selection graph policy { toBuffers := b } =
      measure selection graph policy { toBuffers := {} } := by
    rw [measure_eq graph policy small, measure_eq graph policy small]
    simp only [bind, EStateM.bind, onBuffers, writeDegrees_eq graph _ b.degrees #[]]
  rw [Selection.coverage, if_neg measures.not_idle, Selection.coverage, if_neg measures.not_idle,
    same]

/-! ### What a measurement leaves -/

theorem onBuffers_keeps {α : Type} {P : Buffers → Prop} {attempt : Attempt Buffers α}
    (keeps : Keeps P attempt) :
    Keeps (fun s : Measurement => P s.toBuffers) (onBuffers attempt) := by
  rintro ⟨b, entries, total, reports⟩ holds
  have kept := keeps b holds
  rw [onBuffers]
  cases ran : attempt b with
  | ok a b' =>
    rw [ran] at kept
    exact kept
  | error failure b' =>
    rw [ran] at kept
    exact kept

theorem writeDegrees_keeps_ready (graph : γ) :
    Keeps (Buffers.Ready n) (Buffers.writeDegrees selection graph) := by
  rintro ⟨marks, stamp, queue, degrees⟩ ready
  rw [Buffers.writeDegrees]
  split <;> exact ⟨ready.size, ready.stamp_le⟩

theorem cover_keeps_ready (p : Nat) : Keeps (Buffers.Ready n) (cover p) := by
  intro b ready
  rw [cover]
  split
  · next h =>
    split
    · exact ready
    · refine ⟨by simpa [left] using ready.size, fun q hq => ?_⟩
      simp only [left, Array.getElem_set]
      split
      · next same =>
        subst same
        exact ready.stamp_le p h
      · exact ready.stamp_le q (by simpa [left] using hq)
  · exact ready

theorem coverAll_keeps_ready (points : List Nat) (total : Nat) :
    Keeps (Buffers.Ready n) (coverAll points total) := by
  induction points generalizing total with
  | nil => exact .pure total
  | cons point points ih =>
    unfold coverAll
    exact .bind (cover_keeps_ready point) fun fresh => ih _

theorem measureEntry_keeps_ready (graph : γ) (candidate : Entry.Candidate) :
    Keeps (fun s : Measurement => s.toBuffers.Ready n)
      (measureEntry selection graph candidate) := by
  unfold measureEntry
  refine .bind (onBuffers_keeps (traverse_keeps_ready selection graph candidate.point)) ?_
  intro depth
  refine .bind .get fun s => .bind .get fun s' => ?_
  refine .bind (onBuffers_keeps (coverAll_keeps_ready _ _)) fun total => ?_
  exact .modify fun s ready => ready

theorem measureEntries_keeps_ready (graph : γ) (candidates : List Entry.Candidate) :
    Keeps (fun s : Measurement => s.toBuffers.Ready n)
      (measureEntries selection graph candidates) := by
  induction candidates with
  | nil => exact .pure ()
  | cons candidate candidates ih =>
    unfold measureEntries
    exact .bind (measureEntry_keeps_ready graph candidate) fun _ => ih

/-- A measurement leaves the storage ready and sized for its selection, also when it fails. -/
theorem coverage_ready [Memory] (graph : γ) {policy : Policy}
    (measures : Measures selection policy) (small : selection.pointCount < pointLimit)
    (b : Buffers) :
    (selection.coverage graph policy b).state.Ready selection.pointCount := by
  have keeps : Keeps (fun s : Measurement => s.toBuffers.Ready selection.pointCount)
      (onBuffers (Buffers.writeDegrees selection graph) >>= fun _ => do
        measureEntries selection graph
          (← Attempt.check
            (Entry.shortlist (← get).degrees policy.tie policy.entryCount selection.members))) :=
    .bind (onBuffers_keeps (writeDegrees_keeps_ready graph)) fun _ =>
      .bind .get fun _ => .bind (.check _) fun candidates =>
        measureEntries_keeps_ready graph candidates
  have kept := keeps
    { marks := Array.replicate selection.pointCount {}, degrees := b.degrees }
    (Buffers.ready_blank selection.pointCount b.degrees)
  rw [← measure_eq graph policy small] at kept
  rw [Selection.coverage, if_neg measures.not_idle]
  cases ran : measure selection graph policy { toBuffers := b } with
  | ok u s =>
    rw [ran] at kept
    exact kept
  | error failure s =>
    rw [ran] at kept
    exact kept

/-! ## Reach -/

theorem reached_outside (graph : γ) {start : Nat} (outside : selection.pointCount ≤ start)
    (b : Buffers) : reached selection graph start b =
      .error (.entryOutOfRange start selection.pointCount) b := by
  simp only [reached, outside, if_true]
  rfl

theorem reached_not_member (graph : γ) {start : Nat} (inside : start < selection.pointCount)
    (other : ¬ selection.isMember start) (b : Buffers) :
    reached selection graph start b = .ok [] b := by
  simp only [reached, Nat.not_le.2 inside, other, if_false, Bool.false_eq_true]
  rfl

theorem Buffers.reset_eq_ok {m : Nat} {c : Buffers} : Buffers.reset m b = .ok () c ↔
    m < pointLimit ∧ c = { marks := Array.replicate m {}, degrees := b.degrees } := by
  rcases Nat.lt_or_ge m pointLimit with fits | big
  · rw [reset_of_lt fits, and_iff_right fits]
    simp [eq_comm]
  · rw [reset, if_pos big]
    exact iff_of_false (by simp) fun h => Nat.not_lt.2 big h.1

/-- The storage that a traversal of `n` points is made in: that which is there, if it is sized for
them, and else the same with all marks erased. -/
inductive Prepared (n : Nat) (b : Buffers) : Buffers → Prop
  | asFound (sized : b.capacity = n) : Prepared n b b
  | emptied {c : Buffers} (other : b.capacity ≠ n) (ran : Buffers.reset n b = .ok () c) :
    Prepared n b c

theorem exists_prepared {m : Nat} (small : m < pointLimit) (b : Buffers) : ∃ c, Prepared m b c := by
  by_cases sized : b.capacity = m
  · exact ⟨b, .asFound sized⟩
  · exact ⟨_, .emptied sized (Buffers.reset_of_lt small b)⟩

theorem Prepared.ready {m : Nat} {c : Buffers} (prepared : Prepared m b c) (ready : b.Ready n) :
    c.Ready m := by
  cases prepared with
  | asFound sized => exact ⟨sized, ready.stamp_le⟩
  | emptied other ran =>
    obtain ⟨-, rfl⟩ := Buffers.reset_eq_ok.1 ran
    exact Buffers.ready_blank m b.degrees

/-- No storage is prepared for more points than can be numbered. -/
theorem Prepared.small {m : Nat} {c : Buffers} (prepared : Prepared m b c) (ready : b.Ready n)
    (few : n < pointLimit) : m < pointLimit := by
  cases prepared with
  | asFound sized => exact (sized.symm.trans ready.size).trans_lt few
  | emptied other ran => exact (Buffers.reset_eq_ok.1 ran).1

/-- From a member a traversal is made in the storage that is prepared for it. -/
theorem reached_of_prepared (graph : γ) {start : Nat} {c : Buffers}
    (member : selection.isMember start) (prepared : Prepared selection.pointCount b c) :
    reached selection graph start b =
      (do
        let _ ← traverse selection graph start
        return (← get).visited.mergeSort) c := by
  have inside := Selection.lt_of_isMember member
  have got : (get : Attempt Buffers Buffers) b = .ok b b := rfl
  simp only [reached, Nat.not_le.2 inside, member, if_false, if_true]
  cases prepared with
  | asFound sized => rw [bind_of_ok got, if_pos sized]
  | emptied other ran => rw [bind_of_ok got, if_neg other, bind_of_ok ran]

/-- From a member a traversal is made in storage that is ready for the selection. -/
theorem reached_member (graph : γ) {start : Nat} (member : selection.isMember start)
    (small : selection.pointCount < pointLimit) (ready : b.Ready n) :
    ∃ c, c.Ready selection.pointCount ∧ reached selection graph start b =
      (do
        let _ ← traverse selection graph start
        return (← get).visited.mergeSort) c := by
  obtain ⟨c, prepared⟩ := exists_prepared small b
  exact ⟨c, prepared.ready ready, reached_of_prepared graph member prepared⟩

/-- What a traversal puts out is in its queue. -/
theorem collect_parallel (selection : Selection) (graph : γ) (start : Nat) :
    Parallel (fun b c => b.Ready n ∧ c.Ready n) (Alike n)
      (do
        let _ ← traverse selection graph start
        return (← get).visited.mergeSort)
      (do
        let _ ← traverse selection graph start
        return (← get).visited.mergeSort) := by
  refine .bind (traverse_parallel selection graph start) fun _ => ?_
  intro b c alike
  have same : b.visited = c.visited := by rw [Buffers.visited, Buffers.visited, alike.queue]
  show Matches (Alike n) (.ok b.visited.mergeSort b) (.ok c.visited.mergeSort c)
  rw [same]
  exact .ok alike

/-- **What can be reached does not depend on the storage** that is found, as long as it is ready.
It is left ready, and sized for the selection where a traversal was made. -/
theorem reach_independent (graph : γ) (start : Nat) (small : selection.pointCount < pointLimit)
    (ready : b.Ready n) :
    (selection.reach graph start b).result = (selection.reach graph start {}).result ∧
      (selection.reach graph start b).reports = (selection.reach graph start {}).reports ∧
      (selection.reach graph start b).state.Ready
        (if selection.isMember start then selection.pointCount else n) := by
  have blank : Buffers.Ready 0 {} := Buffers.ready_blank 0 #[]
  simp only [Selection.reach]
  rcases Nat.lt_or_ge start selection.pointCount with inside | outside
  · by_cases member : selection.isMember start
    · obtain ⟨c, ready, ran⟩ := reached_member graph member small ready
      obtain ⟨d, ready', ran'⟩ := reached_member graph member small blank
      have same := collect_parallel selection graph start c d ⟨ready, ready'⟩
      rw [← ran, ← ran'] at same
      generalize reached selection graph start b = r at same
      generalize reached selection graph start {} = r' at same
      rw [if_pos member]
      cases same with
      | ok alike => exact ⟨rfl, rfl, alike.ready⟩
      | error alike => exact ⟨rfl, rfl, alike.ready⟩
    · rw [reached_not_member graph inside member, reached_not_member graph inside member,
        if_neg member]
      exact ⟨rfl, rfl, ready⟩
  · have other : ¬ selection.isMember start := fun member =>
      Nat.not_lt.2 outside (Selection.lt_of_isMember member)
    rw [reached_outside graph outside, reached_outside graph outside, if_neg other]
    exact ⟨rfl, rfl, ready⟩

end Navigability.Reach
