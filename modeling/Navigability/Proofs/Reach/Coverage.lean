import Navigability.Proofs.Reach.EntryPoint
import Navigability.Proofs.Reach.Independence

/-!
# Coverage is what the best entry points reach

A measurement makes one traversal after another in the same storage. No traversal touches the marks
that tell which points were counted, and counting the points of a queue adds to the total those that
were not counted before. So the total is at any time the number of points that the entry points so
far reach together, each of them counted once. If a row frays, the degrees cannot be written, and
the failure names the least member whose row does.

## Main definitions

* `Buffers.counted`: the points that were counted
* `Measurement.Tallies`: a measurement that is done with some entry points

## Main results

* `traverse_keeps`: what the operations of a traversal keep, a traversal keeps
* `measureEntry_tallies`, `measureEntries_tallies`: one entry point, and all of them
* `coverage_run_of_intact`, `coverage_of_unwritten`: the two ways in which a measurement runs
* `coverage_of_intact`, `coverage_of_frays`: the two outcomes of a measurement
* `coverage_eq_ok_iff`: when a measurement succeeds, and what it returns
* `coverage_exact`: the outcome where no row frays, in full
-/

namespace Navigability.Reach

open Attempt Entry

variable {γ : Type} [Adjacency γ] {selection : Selection} {graph : γ} {n : Nat} {b : Buffers}

/-! ## The points that are counted -/

/-- The points that the measurement has counted. -/
def Buffers.counted (b : Buffers) : Set Nat :=
  {p | ∃ h : p < b.marks.size, b.marks[p].counted}

theorem Buffers.counted_finite (b : Buffers) : b.counted.Finite :=
  (Set.finite_lt_nat b.marks.size).subset fun _ ⟨h, _⟩ => h

section Keeps

variable {P : Buffers → Prop} (visits : ∀ p, Keeps P (visit p))
  (enqueues : ∀ p level, Keeps P (enqueue p level)) (selection : Selection) (graph : γ)

include visits enqueues

theorem expand_keeps (point : Nat) (level : UInt32) (row : List Nat) :
    Keeps P (expand selection point level row) := by
  induction row with
  | nil => exact .pure ()
  | cons w row ih =>
    unfold expand
    refine .bind (.check _) fun admitted => ?_
    cases admitted with
    | false => exact ih
    | true =>
      refine .bind (visits w) fun fresh => ?_
      cases fresh with
      | false => exact ih
      | true => exact .bind (.check _) fun next => .bind (enqueues w next) fun _ => ih

/-- A sweep keeps what its steps keep, by induction on the bound on the points to come that makes it
end. -/
theorem sweep_keeps (position : Nat) (deepest : UInt32) :
    Keeps P (sweep selection graph position deepest) := by
  intro b holds
  induction pending : b.unvisited + (b.queue.size - position) using Nat.strong_induction_on
    generalizing b position deepest with
  | h more ih =>
    rcases Nat.lt_or_ge position b.queue.size with h | done
    · have kept := expand_keeps visits enqueues selection b.queue[position].point.toNat
        b.queue[position].level (Adjacency.row graph b.queue[position].point.toNat) b holds
      rw [sweep_of_lt h]
      generalize ran : expand selection b.queue[position].point.toNat b.queue[position].level
        (Adjacency.row graph b.queue[position].point.toNat) b = r at kept
      cases r with
      | ok u b' =>
        obtain ⟨-, grown, same⟩ := expand_spec ran
        rw [bind_of_ok ran]
        exact ih _ (by omega) _ _ _ kept rfl
      | error failure b' =>
        rw [bind_of_error ran]
        exact kept
    · rw [sweep_of_le done]
      exact holds

/-- What the operations of a traversal keep, a traversal keeps. -/
theorem traverse_keeps (restarts : Keeps P restart) (start : Nat) :
    Keeps P (traverse selection graph start) := by
  refine .bind restarts fun _ => .bind (visits start) fun _ => .bind (enqueues start 0) fun _ => ?_
  exact .bind (sweep_keeps visits enqueues selection graph 0 0) fun _ => .pure _

end Keeps

theorem visit_keeps_counted (set : Set Nat) (p : Nat) :
    Keeps (fun b => b.counted = set) (visit p) := by
  intro b holds
  by_cases h : p < b.marks.size
  · rw [visit_of_lt h]
    split
    · exact holds
    · rw [← holds]
      ext q
      by_cases same : p = q
      · simp [left, Buffers.counted, Array.getElem_set, ← same, h]
      · simp [left, Buffers.counted, Array.getElem_set, same]
  · rw [visit, dif_neg h]
    exact holds

/-- Traversals do not touch which points were counted. -/
theorem traverse_keeps_counted (set : Set Nat) (selection : Selection) (graph : γ) (start : Nat) :
    Keeps (fun b => b.counted = set) (traverse selection graph start) := by
  refine traverse_keeps (visit_keeps_counted set) (fun p level b holds => holds) selection graph
    (.modify fun b holds => ?_) start
  split
  · simpa [Buffers.counted] using holds
  · exact holds

/-- Counting a point. -/
theorem cover_spec {p : Nat} (ready : b.Ready n) (inside : p < n) :
    ∃ fresh b', cover p b = .ok fresh b' ∧ b'.Ready n ∧ b'.counted = insert p b.counted ∧
      b'.counted.ncard = b.counted.ncard + if fresh then 1 else 0 := by
  have h : p < b.marks.size := inside.trans_eq ready.size.symm
  have kept := cover_keeps_ready p b ready
  by_cases known : b.marks[p].counted
  · have mem : p ∈ b.counted := ⟨h, known⟩
    refine ⟨false, b, by rw [cover, dif_pos h, if_pos known], ready, ?_, by simp⟩
    rw [Set.insert_eq_of_mem mem]
  · have fresh : p ∉ b.counted := by
      rintro ⟨_, counted⟩
      exact known counted
    have ran : cover p b = .ok true { b with
        marks := b.marks.set p { b.marks[p] with counted := true } } := by
      rw [cover, dif_pos h, if_neg known]
    rw [ran] at kept
    refine ⟨true, _, ran, kept, ?_⟩
    generalize shape : ({ b with
      marks := b.marks.set p { b.marks[p] with counted := true } } : Buffers) = b'
    have counted : b'.counted = insert p b.counted := by
      subst shape
      ext q
      by_cases same : p = q
      · simp [Buffers.counted, Array.getElem_set, ← same, h]
      · simp [Buffers.counted, Array.getElem_set, same, Ne.symm same]
    exact ⟨counted, by rw [counted, Set.ncard_insert_of_notMem fresh b.counted_finite]; rfl⟩

/-- Counting a list of points, on top of the number of those that were counted. -/
theorem coverAll_spec {points : List Nat} (ready : b.Ready n) (inside : ∀ p ∈ points, p < n) :
    ∃ b', coverAll points b.counted.ncard b = .ok b'.counted.ncard b' ∧ b'.Ready n ∧
      b'.counted = b.counted ∪ {p | p ∈ points} := by
  induction points generalizing b with
  | nil => exact ⟨b, rfl, ready, by simp⟩
  | cons p points ih =>
    obtain ⟨here, inside⟩ := List.forall_mem_cons.1 inside
    obtain ⟨fresh, c, covered, ready', counted, total⟩ := cover_spec ready here
    obtain ⟨b', ran, ready', counted'⟩ := ih ready' inside
    refine ⟨b', ?_, ready', ?_⟩
    · rw [coverAll, bind_of_ok covered, ← ran, total]
      cases fresh <;> rfl
    · rw [counted', counted]
      ext q
      simp [or_assoc, or_left_comm]

/-! ## Entry points -/

/-- A measurement in which some entry points are done: the storage is ready for the next traversal,
and the points that were counted are those that any of them reaches. -/
structure Measurement.Tallies (selection : Selection) (graph : γ) (done : List Candidate)
    (s : Measurement) : Prop where
  ready : s.toBuffers.Ready selection.pointCount
  counted : s.toBuffers.counted = selection.union graph done
  total : s.total = s.toBuffers.counted.ncard
  entries : s.entries.toList = done.map (selection.entryReach graph)
  reports : s.reports.toList = done.map fun c => (selection.entryReach graph c).event

/-- Before the first entry point nothing is counted. -/
theorem Measurement.Tallies.blank (selection : Selection) (graph : γ) (degrees : Array UInt32) :
    Measurement.Tallies selection graph []
      { marks := Array.replicate selection.pointCount {}, degrees } := by
  have none : Buffers.counted { marks := Array.replicate selection.pointCount {}, degrees } =
      ∅ := by
    simp [Buffers.counted]
  refine ⟨Buffers.ready_blank .., ?_, ?_, rfl, rfl⟩
  · rw [none]
    simp [Selection.union]
  · rw [none, Set.ncard_empty]

theorem onBuffers_of_ok {α : Type} {attempt : Attempt Buffers α} {s : Measurement} {a : α}
    {b : Buffers} (ran : attempt s.toBuffers = .ok a b) :
    onBuffers attempt s = .ok a { s with toBuffers := b } := by
  obtain ⟨b', entries, total, reports⟩ := s
  rw [onBuffers, ran]

theorem onBuffers_of_error {α : Type} {attempt : Attempt Buffers α} {s : Measurement}
    {failure : Failure} {b : Buffers} (ran : attempt s.toBuffers = .error failure b) :
    onBuffers attempt s = .error failure { s with toBuffers := b } := by
  obtain ⟨b', entries, total, reports⟩ := s
  rw [onBuffers, ran]

section Entries

variable (small : selection.pointCount < pointLimit) (intact : ∀ p, ¬ selection.Frays graph p)

include small intact

/-- **One entry point** is measured, and the measurement is done with it. -/
theorem measureEntry_tallies {s : Measurement} {done : List Candidate} {c : Candidate}
    (tallies : s.Tallies selection graph done) (member : selection.isMember c.point) :
    ∃ s', measureEntry selection graph c s = .ok () s' ∧
      s'.Tallies selection graph (done ++ [c]) := by
  obtain ⟨b, traversed, sound, visited⟩ := traverse_of_intact tallies.ready small member
    fun p _ => intact p
  have kept : b.counted = s.counted :=
    (traverse_keeps_counted s.counted selection graph c.point).of_ok traversed rfl
  have reaches : ∀ p, p ∈ b.visited ↔ selection.Reaches graph c.point p := fun p => by
    rw [visited.mem_iff, Selection.mem_reachable_iff member]
  obtain ⟨b', covered, ready, counted⟩ := coverAll_spec sound.ready fun p mem =>
    Selection.lt_of_isMember (((reaches p).1 mem).isMember member)
  rw [kept, ← tallies.total] at covered
  have entry : (⟨c.point, c.degree, b.visited.length,
      selection.eccentricity graph c.point⟩ : EntryReach) = selection.entryReach graph c := by
    rw [visited.length_eq]
    rfl
  refine ⟨{ toBuffers := b'
            entries := s.entries.push (selection.entryReach graph c)
            total := b'.counted.ncard
            reports := s.reports.push (selection.entryReach graph c).event }, ?_, ready, ?_, rfl,
    by simp [tallies.entries], by simp [tallies.reports]⟩
  · rw [measureEntry, bind_of_ok (onBuffers_of_ok traversed), ← entry]
    exact bind_of_ok (onBuffers_of_ok covered)
  · show b'.counted = _
    rw [counted, kept, tallies.counted]
    ext p
    simp [Selection.union, reaches, or_and_right, exists_or]

/-- **All entry points** are measured, one after another. -/
theorem measureEntries_tallies {candidates : List Candidate} {s : Measurement}
    {done : List Candidate} (tallies : s.Tallies selection graph done)
    (members : ∀ c ∈ candidates, selection.isMember c.point) :
    ∃ s', measureEntries selection graph candidates s = .ok () s' ∧
      s'.Tallies selection graph (done ++ candidates) := by
  induction candidates generalizing s done with
  | nil => exact ⟨s, rfl, by rwa [List.append_nil]⟩
  | cons c candidates ih =>
    obtain ⟨member, members⟩ := List.forall_mem_cons.1 members
    obtain ⟨t, ran, tallies⟩ := measureEntry_tallies small intact tallies member
    obtain ⟨s', ran', tallies⟩ := ih tallies members
    refine ⟨s', ?_, by simpa using tallies⟩
    rw [measureEntries, bind_of_ok ran, ran']

end Entries

/-! ## Measurements -/

/-- The best candidates of a full table of degrees are the best members. -/
theorem best_degreeTable (selection : Selection) (graph : γ) (policy : Policy) :
    best (selection.degreeTable graph selection.members) policy.tie policy.entryCount
      selection.members = selection.entryPoints graph policy := by
  rw [best_eq_take, Selection.filterMap_candidate]
  rfl

/-- Where there is nothing to measure, nothing is covered. -/
theorem coverageOf_of_not_measures (graph : γ) {policy : Policy}
    (idle : ¬ Measures selection policy) :
    selection.coverageOf graph policy = .empty selection := by
  have none : selection.entryPoints graph policy = [] := by
    rw [← List.length_eq_zero_iff, Selection.length_entryPoints]
    unfold Measures at idle
    omega
  simp [Selection.coverageOf, none, Selection.union, Coverage.empty]

section Memory

variable [Memory] {policy : Policy}

/-- A measurement in which no row frays comes to its shortlist with a full table of degrees, and
with no mark in the storage. -/
theorem measure_of_written (policy : Policy) (small : selection.pointCount < pointLimit)
    (intact : ∀ p, ¬ selection.Frays graph p) (b : Buffers) :
    measure selection graph policy { toBuffers := b } =
      (check (shortlist (selection.degreeTable graph selection.members) policy.tie
          policy.entryCount selection.members) >>= measureEntries selection graph)
        { marks := Array.replicate selection.pointCount {}
          degrees := selection.degreeTable graph selection.members } := by
  have written : Buffers.writeDegrees selection graph
      { marks := Array.replicate selection.pointCount {}, degrees := b.degrees } =
      .ok () { marks := Array.replicate selection.pointCount {}
               degrees := selection.degreeTable graph selection.members } := by
    rw [Buffers.writeDegrees, Selection.writeDegrees_of_intact intact]
  rw [measure_eq graph policy small, bind_of_ok (onBuffers_of_ok written)]
  rfl

/-- A measurement in which no row frays is done with the best entry points, if there is room for
them. -/
theorem measure_of_intact (wanted : policy.entryCount ≠ 0) (room : HasRoom policy.entryCount)
    (small : selection.pointCount < pointLimit) (intact : ∀ p, ¬ selection.Frays graph p)
    (b : Buffers) : ∃ s, measure selection graph policy { toBuffers := b } = .ok () s ∧
      s.Tallies selection graph (selection.entryPoints graph policy) := by
  have members : ∀ c ∈ selection.entryPoints graph policy, selection.isMember c.point :=
    fun _ => Selection.isMember_of_mem_entryPoints
  obtain ⟨s, ran, tallies⟩ := measureEntries_tallies small intact
    (.blank selection graph (selection.degreeTable graph selection.members)) members
  refine ⟨s, ?_, tallies⟩
  rw [measure_of_written policy small intact, shortlist_of_hasRoom _ _ wanted room,
    best_degreeTable, ← ran]
  rfl

/-- **If no row frays**, a measurement that has anything to measure returns the coverage of the best
entry points, if there is room for them. It has reported each of them, and the whole coverage at the
end. -/
theorem coverage_run_of_intact (measures : Measures selection policy)
    (room : HasRoom policy.entryCount) (small : selection.pointCount < pointLimit)
    (intact : ∀ p, ¬ selection.Frays graph p) (b : Buffers) :
    ∃ state, selection.coverage graph policy b =
      { result := .ok (selection.coverageOf graph policy)
        state
        reports := (selection.coverageOf graph policy).entries.map EntryReach.event ++
          [(selection.coverageOf graph policy).event] } := by
  obtain ⟨s, ran, tallies⟩ := measure_of_intact measures.2 room small intact b
  refine ⟨s.toBuffers, ?_⟩
  rw [Selection.coverage, if_neg measures.not_idle, ran]
  simp only [tallies.entries, tallies.reports, tallies.total, tallies.counted,
    Selection.coverageOf, List.map_map]
  rfl

/-- If no row frays, the coverage is that of the best entry points, in any storage. -/
theorem coverage_of_intact (granted : Granted selection policy)
    (small : selection.pointCount < pointLimit) (intact : ∀ p, ¬ selection.Frays graph p)
    (b : Buffers) :
    (selection.coverage graph policy b).result = .ok (selection.coverageOf graph policy) := by
  by_cases measures : Measures selection policy
  · obtain ⟨state, ran⟩ := coverage_run_of_intact measures (granted measures) small intact b
    rw [ran]
  · rw [coverage_of_not_measures graph measures, coverageOf_of_not_measures graph measures]

/-- **If there is no room for the entry points**, a measurement in which no row frays ends when the
degrees are written: the marks are erased, and nothing was reported. -/
theorem coverage_of_not_hasRoom (measures : Measures selection policy)
    (full : ¬ HasRoom policy.entryCount) (small : selection.pointCount < pointLimit)
    (intact : ∀ p, ¬ selection.Frays graph p) (b : Buffers) :
    selection.coverage graph policy b =
      { result := .error (.fault (.outOfMemory (reservation policy.entryCount)))
        state := { marks := Array.replicate selection.pointCount {}
                   degrees := selection.degreeTable graph selection.members }
        reports := [] } := by
  rw [Selection.coverage, if_neg measures.not_idle, measure_of_written policy small intact,
    shortlist_of_not_hasRoom _ _ measures.2 full]
  rfl

/-- If no row frays, a measurement that is not given the room that it asks for ends there. -/
theorem coverage_of_refused (refused : ¬ Granted selection policy)
    (small : selection.pointCount < pointLimit) (intact : ∀ p, ¬ selection.Frays graph p)
    (b : Buffers) : (selection.coverage graph policy b).result =
      .error (.fault (.outOfMemory (reservation policy.entryCount))) := by
  obtain ⟨measures, full⟩ := Classical.not_imp.1 refused
  rw [coverage_of_not_hasRoom measures full small intact]

/-- **If the degrees cannot be written**, a measurement ends there: the marks are erased, and
nothing was reported. -/
theorem coverage_of_unwritten (measures : Measures selection policy)
    (small : selection.pointCount < pointLimit) {b : Buffers} {failure : Failure}
    {degrees : Array UInt32}
    (failed : selection.writeDegrees graph b.degrees = .error failure degrees) :
    selection.coverage graph policy b =
      { result := .error failure
        state := { marks := Array.replicate selection.pointCount {}, degrees }
        reports := [] } := by
  have stopped : Buffers.writeDegrees selection graph
      { marks := Array.replicate selection.pointCount {}, degrees := b.degrees } =
      .error failure { marks := Array.replicate selection.pointCount {}, degrees } := by
    rw [Buffers.writeDegrees, failed]
  rw [Selection.coverage, if_neg measures.not_idle, measure_eq graph policy small,
    bind_of_error (onBuffers_of_error stopped)]

/-- **If a row frays**, a measurement fails, and names the least member whose row does. -/
theorem coverage_of_frays (wanted : policy.entryCount ≠ 0)
    (small : selection.pointCount < pointLimit) (frays : ∃ p, selection.Frays graph p)
    (b : Buffers) : ∃ p w, IsLeast {q | selection.Frays graph q} p ∧
      selection.Strays graph p w ∧ (selection.coverage graph policy b).result =
        .error (.neighborOutOfRange p w selection.pointCount) := by
  obtain ⟨p, w, least, strays, written⟩ :=
    Selection.writeDegrees_of_frays frays b.degrees
  have measures : Measures selection policy := by
    refine ⟨?_, wanted⟩
    rw [← Selection.length_members]
    exact Nat.ne_of_gt (List.length_pos_of_mem (Selection.mem_members_iff.2 strays.member))
  exact ⟨p, w, least, strays, by rw [coverage_of_unwritten measures small written]⟩

/-- **A measurement succeeds** when it is given the room that it asks for, and has nothing to
measure or no row frays. It returns the coverage of the best entry points. -/
theorem coverage_eq_ok_iff {coverage : Coverage} (small : selection.pointCount < pointLimit)
    (b : Buffers) : (selection.coverage graph policy b).result = .ok coverage ↔
      coverage = selection.coverageOf graph policy ∧ Granted selection policy ∧
        (Measures selection policy → ∀ p, ¬ selection.Frays graph p) := by
  by_cases measures : Measures selection policy
  · by_cases frays : ∃ p, selection.Frays graph p
    · obtain ⟨p, w, least, -, failed⟩ := coverage_of_frays measures.2 small frays b
      rw [failed]
      exact iff_of_false nofun fun ⟨_, _, intact⟩ => intact measures p least.1
    · rw [not_exists] at frays
      by_cases room : HasRoom policy.entryCount
      · rw [coverage_of_intact (fun _ => room) small frays, Except.ok.injEq, eq_comm]
        exact (and_iff_left ⟨fun _ => room, fun _ => frays⟩).symm
      · rw [coverage_of_not_hasRoom measures room small frays]
        exact iff_of_false nofun fun ⟨_, granted, _⟩ => room (granted measures)
  · rw [coverage_of_not_measures graph measures, coverageOf_of_not_measures graph measures,
      Except.ok.injEq, eq_comm]
    exact (and_iff_left ⟨fun runs => absurd runs measures, fun runs => absurd runs measures⟩).symm

/-- **A measurement fails** when it has anything to measure and the degrees cannot be written, or
when they can and it is not given the room that it asks for. -/
theorem coverage_fails_iff (small : selection.pointCount < pointLimit) (b : Buffers)
    (failure : Failure) : (selection.coverage graph policy b).result = .error failure ↔
      Measures selection policy ∧
        (outcome (selection.writeDegrees graph b.degrees) = .error failure ∨
          outcome (selection.writeDegrees graph b.degrees) = .ok () ∧
            ¬ Granted selection policy ∧
            failure = .fault (.outOfMemory (reservation policy.entryCount))) := by
  by_cases measures : Measures selection policy
  · have granted : Granted selection policy ↔ HasRoom policy.entryCount :=
      forall_prop_of_true measures
    rw [and_iff_right measures, granted]
    cases written : selection.writeDegrees graph b.degrees with
    | ok u degrees =>
      have intact := (Selection.writeDegrees_eq_ok_iff b.degrees).1 (by rw [written]; rfl)
      by_cases room : HasRoom policy.entryCount
      · rw [coverage_of_intact (fun _ => room) small intact]
        simp [outcome, room]
      · rw [coverage_of_not_hasRoom measures room small intact]
        simp [outcome, room, eq_comm]
    | error cause degrees =>
      simp [coverage_of_unwritten measures small written, outcome]
  · rw [coverage_of_not_measures graph measures]
    exact iff_of_false nofun fun failed => measures failed.1

/-- A failure that a measurement returns is that of the degrees. -/
theorem coverage_returns_iff (small : selection.pointCount < pointLimit) (b : Buffers)
    {failure : Failure} (returned : failure.Returned) :
    (selection.coverage graph policy b).result = .error failure ↔
      Measures selection policy ∧
        outcome (selection.writeDegrees graph b.degrees) = .error failure := by
  rw [coverage_fails_iff small]
  refine and_congr_right fun _ => or_iff_left ?_
  rintro ⟨-, -, rfl⟩
  exact returned

/-! ## Coverage in full -/

/-- **A coverage is exact.** If the rows of the members name points only, a measurement that is
given the room for its entry points succeeds, whatever storage it finds and whatever the rows of the
other points are. Its entries are the first ones of the members in the order of their degrees and
ties; each says how many members can be reached from its point and how far the farthest of them is;
and it counts the members that can be reached from any of them. -/
theorem coverage_exact (graph : γ) (policy : Policy) (small : selection.pointCount < pointLimit)
    (inside : ∀ p, selection.isMember p → ∀ w ∈ Adjacency.row graph p, w < selection.pointCount)
    (granted : Granted selection policy) (b : Buffers) :
    ∃ coverage, (selection.coverage graph policy b).result = .ok coverage ∧
      coverage.Exact selection graph policy := by
  have intact := Selection.not_frays_of_inside inside
  exact ⟨_, coverage_of_intact granted small intact b, coverageOf_exact selection graph policy⟩

end Memory

/-- A point alone. -/
def alone : Selection := ⟨"alone", #[true]⟩

/-- The graph of a point that leads nowhere. -/
def nowhere : RowGraph := .ofRows [[]]

/-- No machine has the room for as many entry points as there are numbers of 64 bits but two. -/
theorem not_granted_alone [Memory] : ¬ Granted alone { entryCount := 2 ^ 64 - 2 } := fun granted =>
  not_hasRoom (by decide) (granted ⟨by decide, by decide⟩)

theorem inside_nowhere :
    ∀ p, alone.isMember p → ∀ w ∈ Adjacency.row nowhere p, w < alone.pointCount := by
  have listed : ∀ p ∈ alone.members, ∀ w ∈ Adjacency.row nowhere p, w < alone.pointCount := by
    decide
  exact fun p member => listed p (Selection.mem_members_iff.2 member)

/-- The point alone has no coverage from that many entry points, on any machine. -/
theorem coverage_alone_refused :
    alone.pointCount < pointLimit ∧
    (∀ p, alone.isMember p → ∀ w ∈ Adjacency.row nowhere p, w < alone.pointCount) ∧
    ∀ [Memory], (alone.coverage nowhere { entryCount := 2 ^ 64 - 2 } {}).result =
      .error (.fault (.outOfMemory (reservation (2 ^ 64 - 2)))) := by
  have small : alone.pointCount < pointLimit := by decide
  have intact := Selection.not_frays_of_inside inside_nowhere
  exact ⟨small, inside_nowhere, fun {_} => coverage_of_refused not_granted_alone small intact {}⟩

/-- Two ways that meet, with a detour over a point that is not selected. -/
def fork : RowGraph := .ofRows [[1, 1, 3], [2], [], [9], [1]]

/-- The points of the fork. -/
def onFork : Selection := ⟨"fork", #[true, true, true, false, true]⟩

theorem coverage_fork :
    onFork.pointCount < pointLimit ∧
    (∀ p, onFork.isMember p → ∀ w ∈ Adjacency.row fork p, w < onFork.pointCount) ∧
    Granted onFork { entryCount := 2, tie := .highestFirst } ∧
    (onFork.coverage fork { entryCount := 2, tie := .highestFirst } {}).result =
      .ok ⟨"fork", 4, [⟨0, 2, 3, 2⟩, ⟨4, 1, 3, 2⟩], 4⟩ ∧
    IsGreatest {d | ∃ v, onFork.Distance fork 4 v d} 2 ∧
    {v | onFork.Reaches fork 0 v ∨ onFork.Reaches fork 4 v}.ncard = 4 := by
  have small : onFork.pointCount < pointLimit := by decide
  have listed : ∀ p ∈ onFork.members, ∀ w ∈ Adjacency.row fork p, w < onFork.pointCount := by
    decide
  have inside := fun p member => listed p (Selection.mem_members_iff.2 member)
  have ran : (onFork.coverage fork { entryCount := 2, tie := .highestFirst } {}).result =
      .ok ⟨"fork", 4, [⟨0, 2, 3, 2⟩, ⟨4, 1, 3, 2⟩], 4⟩ := by
    decide +kernel
  have granted : Granted onFork { entryCount := 2, tie := .highestFirst } :=
    fun _ => (by decide : HasRoom 2)
  obtain ⟨coverage, ok, exact⟩ := coverage_exact fork { entryCount := 2, tie := .highestFirst }
    small inside granted {}
  obtain rfl := Except.ok.inj (ran.symm.trans ok)
  have union := exact.covered
  simp only [List.mem_cons, List.not_mem_nil, or_false, exists_eq_or_imp, exists_eq_left] at union
  exact ⟨small, inside, granted, ran, exact.depth ⟨4, 1, 3, 2⟩ (by simp), union.symm⟩

end Navigability.Reach
