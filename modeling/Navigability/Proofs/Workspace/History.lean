import Mathlib.Data.List.Induction
import Navigability.Proofs.Component.Partition
import Navigability.Proofs.Reach.Independence
import Navigability.Workspace

/-!
# Workspaces have no memory

A workspace is used for one task after another, each with a graph, a selection and a setting of its
own, and some of them fail on their way. What is left in the storage then has no influence on later
tasks: every task answers and reports what it does in a workspace that was never used. The only
trace of the tasks before it is in the numbers of points that the two parts are sized for, and these
are the sizes of the latest tasks that used the parts.

## Main definitions

* `Task`, `Task.run`: an analysis with all it is given, and its run in a workspace
* `Workspace.after`: the workspace that a sequence of tasks leaves
* `Task.latest`: the size of the latest task that used a part

## Main results

* `Task.run_step`: one task, in a workspace whose traversals are ready
* `Workspace.exists_ready`: after any tasks the traversals are ready
* `run_independent`: a task answers after any tasks what it answers at first
-/

namespace Navigability

/-- An analysis with all that it is given. The graphs of two tasks may differ in kind. -/
inductive Task : Type 1
  | components {γ : Type} [Adjacency γ] (selection : Selection) (graph : γ)
  | coverage {γ : Type} [Adjacency γ] (selection : Selection) (graph : γ) (policy : Reach.Policy)
  | reach {γ : Type} [Adjacency γ] (selection : Selection) (graph : γ) (start : Nat)

namespace Task

/-- What a task answers with when it succeeds. -/
def Answer : Task → Type
  | components _ _ => Component.Listing
  | coverage _ _ _ => Reach.Coverage
  | reach _ _ _ => List Nat

def selection : Task → Selection
  | components selection _ => selection
  | coverage selection _ _ => selection
  | reach selection _ _ => selection

/-- The run of a task in a workspace. -/
def run [Memory] : (task : Task) → Workspace → Run Workspace Event task.Answer
  | components selection graph, workspace => workspace.components selection graph
  | coverage selection graph policy, workspace => workspace.coverage selection graph policy
  | reach selection graph start, workspace => workspace.reach selection graph start

/-- The number of points that a task sizes the search for, if it uses the search. -/
def searchSize : Task → Option Nat
  | components selection _ => some selection.pointCount
  | _ => none

/-- The number of points that a task sizes the traversals for, if it makes any. -/
def visitSize : Task → Option Nat
  | components _ _ => none
  | coverage selection _ policy =>
    if selection.memberCount ≠ 0 ∧ policy.entryCount ≠ 0 then some selection.pointCount else none
  | reach selection _ start =>
    if selection.isMember start then some selection.pointCount else none

theorem pointCount_of_visitSize (task : Task) {n : Nat} (size : task.visitSize = some n) :
    task.selection.pointCount = n := by
  cases task with
  | components selection graph => cases size
  | coverage selection graph policy =>
    rw [visitSize] at size
    split at size
    · exact Option.some.inj size
    · cases size
  | reach selection graph start =>
    rw [visitSize] at size
    split at size
    · exact Option.some.inj size
    · cases size

/-- The size that the latest of the tasks with a size has, or zero if there is none. -/
def latest (size : Task → Option Nat) (tasks : List Task) : Nat :=
  (tasks.reverse.findSome? size).getD 0

theorem latest_concat (size : Task → Option Nat) (tasks : List Task) (task : Task) :
    latest size (tasks ++ [task]) = (size task).getD (latest size tasks) := by
  rw [latest, latest, List.reverse_append, List.reverse_singleton, List.singleton_append,
    List.findSome?_cons]
  cases size task <;> rfl

end Task

/-- The workspace that tasks leave, one after another from one that was not used. -/
def Workspace.after [Memory] (tasks : List Task) : Workspace :=
  tasks.foldl (fun workspace task => (task.run workspace).state) {}

theorem Workspace.after_concat [Memory] (tasks : List Task) (task : Task) :
    after (tasks ++ [task]) = (task.run (after tasks)).state := by
  rw [after, List.foldl_append]
  rfl

/-! ## One task -/

section Step

variable {γ : Type} [Adjacency γ] {selection : Selection}

/-- The search empties the storage it finds, so it is the same run in any storage. -/
theorem components_eq_blank (graph : γ) (small : selection.pointCount < pointLimit)
    (buffers : Component.Buffers) :
    selection.components graph buffers = selection.components graph {} := by
  rw [Selection.components, Component.Buffers.reset_of_lt small, Selection.components,
    Component.Buffers.reset_of_lt small]

/-- The search leaves the storage sized for its selection, also when it fails. -/
theorem components_capacity (graph : γ) (small : selection.pointCount < pointLimit)
    (buffers : Component.Buffers) :
    (selection.components graph buffers).state.capacity = selection.pointCount := by
  rcases Component.components_outcome graph buffers small with
    ⟨s, sound, -, -, ran⟩ | ⟨v, w, s, sound, -, ran⟩
  · rw [ran]
    exact sound.size
  · rw [ran]
    exact sound.size

end Step

/-- One task in a workspace whose traversals are ready for some number of points. It answers and
reports what it does in a workspace that was not used, and leaves the traversals ready. -/
theorem Task.run_step [Memory] (task : Task) (small : task.selection.pointCount < pointLimit)
    {workspace : Workspace} {n : Nat} (ready : workspace.visits.Ready n) :
    (task.run workspace).result = (task.run {}).result ∧
      (task.run workspace).reports = (task.run {}).reports ∧
      (task.run workspace).state.search.capacity =
        task.searchSize.getD workspace.search.capacity ∧
      (task.run workspace).state.visits.Ready (task.visitSize.getD n) := by
  obtain ⟨search, visits⟩ := workspace
  cases task with
  | components selection graph =>
    replace small : selection.pointCount < pointLimit := small
    have same := components_eq_blank graph small search
    refine ⟨?_, ?_, components_capacity graph small search, ready⟩
    · show (selection.components graph search).result = (selection.components graph {}).result
      rw [same]
    · show (selection.components graph search).reports = (selection.components graph {}).reports
      rw [same]
  | coverage selection graph policy =>
    replace small : selection.pointCount < pointLimit := small
    by_cases measures : Reach.Measures selection policy
    · have same := Reach.coverage_eq_blank graph measures small visits
      refine ⟨?_, ?_, rfl, ?_⟩
      · show (selection.coverage graph policy visits).result =
          (selection.coverage graph policy {}).result
        rw [same]
      · show (selection.coverage graph policy visits).reports =
          (selection.coverage graph policy {}).reports
        rw [same]
      · have size : visitSize (coverage selection graph policy) = some selection.pointCount :=
          if_pos measures
        rw [size]
        exact Reach.coverage_ready graph measures small visits
    · have idle := Reach.coverage_of_not_measures graph measures
      have size : visitSize (coverage selection graph policy) = none := if_neg measures
      refine ⟨?_, ?_, rfl, ?_⟩
      · show (selection.coverage graph policy visits).result =
          (selection.coverage graph policy {}).result
        rw [idle, idle]
      · show (selection.coverage graph policy visits).reports =
          (selection.coverage graph policy {}).reports
        rw [idle, idle]
      · rw [size]
        show (selection.coverage graph policy visits).state.Ready n
        rw [idle]
        exact ready
  | reach selection graph start =>
    replace small : selection.pointCount < pointLimit := small
    obtain ⟨result, reports, left⟩ := Reach.reach_independent graph start small ready
    refine ⟨result, reports, rfl, ?_⟩
    by_cases member : selection.isMember start
    · have size : visitSize (reach selection graph start) = some selection.pointCount :=
        if_pos member
      rw [if_pos member] at left
      rw [size]
      exact left
    · have size : visitSize (reach selection graph start) = none := if_neg member
      rw [if_neg member] at left
      rw [size]
      exact left

/-! The analyses, each by itself, answer as in storage that was not used. -/

namespace Workspace

variable {γ : Type} [Adjacency γ] {selection : Selection} (graph : γ) {workspace : Workspace}
  {n : Nat} (small : selection.pointCount < pointLimit) (ready : workspace.visits.Ready n)

include small

theorem components_result :
    (workspace.components selection graph).result = (selection.components graph {}).result := by
  show (selection.components graph workspace.search).result = _
  rw [components_eq_blank graph small]

include ready

theorem coverage_result [Memory] (policy : Reach.Policy) :
    (workspace.coverage selection graph policy).result =
      (selection.coverage graph policy {}).result :=
  ((Task.coverage selection graph policy).run_step small ready).1

theorem reach_result (start : Nat) :
    (workspace.reach selection graph start).result = (selection.reach graph start {}).result :=
  (Reach.reach_independent graph start small ready).1

end Workspace

/-! ## Tasks one after another -/

/-- After any tasks the traversals are ready, and both parts have the sizes of the latest tasks that
used them. -/
theorem Workspace.after_ready [Memory] (tasks : List Task)
    (small : ∀ task ∈ tasks, task.selection.pointCount < pointLimit) :
    (after tasks).search.capacity = Task.latest Task.searchSize tasks ∧
      (after tasks).visits.Ready (Task.latest Task.visitSize tasks) := by
  induction tasks using List.reverseRecOn with
  | nil => exact ⟨rfl, Reach.Buffers.ready_blank 0 #[]⟩
  | append_singleton tasks task ih =>
    obtain ⟨capacity, ready⟩ := ih fun t mem => small t (List.mem_append_left _ mem)
    obtain ⟨-, -, searched, left⟩ := task.run_step (small task (by simp)) ready
    rw [after_concat, Task.latest_concat, Task.latest_concat, ← capacity]
    exact ⟨searched, left⟩

/-- A task on too many points leaves the storage of the traversals as it is, which is not sized for
so many points and cannot be. -/
theorem Task.visits_of_oversized [Memory] (task : Task)
    (big : pointLimit ≤ task.selection.pointCount) {workspace : Workspace} {n : Nat}
    (ready : workspace.visits.Ready n) (small : n < pointLimit) :
    (task.run workspace).state.visits = workspace.visits := by
  obtain ⟨search, visits⟩ := workspace
  cases task with
  | components selection graph => rfl
  | coverage selection graph policy =>
    replace big : pointLimit ≤ selection.pointCount := big
    show (selection.coverage graph policy visits).state = visits
    rw [Selection.coverage]
    split
    · rfl
    · have stopped : Reach.onBuffers (Reach.Buffers.reset selection.pointCount)
          { toBuffers := visits } =
          .error (.tooManyPoints selection.pointCount) { toBuffers := visits } := by
        rw [Reach.onBuffers, Reach.Buffers.reset, if_pos big]
      rw [Reach.measure, Attempt.bind_of_error stopped]
  | reach selection graph start =>
    replace big : pointLimit ≤ selection.pointCount := big
    show (selection.reach graph start visits).state = visits
    rcases Nat.lt_or_ge start selection.pointCount with inside | outside
    · by_cases member : selection.isMember start
      · have other : visits.capacity ≠ selection.pointCount := by
          have size : visits.capacity = n := ready.size
          omega
        have stopped : Reach.reached selection graph start visits =
            .error (.tooManyPoints selection.pointCount) visits := by
          have got : (get : Attempt Reach.Buffers Reach.Buffers) visits = .ok visits visits := rfl
          have full : Reach.Buffers.reset selection.pointCount visits =
              .error (.tooManyPoints selection.pointCount) visits := by
            rw [Reach.Buffers.reset, if_pos big]
          simp only [Reach.reached, Nat.not_le.2 inside, member, if_false, if_true]
          rw [Attempt.bind_of_ok got, if_neg other, Attempt.bind_of_error full]
        rw [Selection.reach, stopped]
      · rw [Selection.reach, Reach.reached_not_member graph inside member]
    · rw [Selection.reach, Reach.reached_outside graph outside]

/-- After any tasks, also on too many points, the traversals are ready for some number of points. -/
theorem Workspace.exists_ready [Memory] (tasks : List Task) :
    ∃ n < pointLimit, (after tasks).visits.Ready n := by
  induction tasks using List.reverseRecOn with
  | nil => exact ⟨0, by decide, Reach.Buffers.ready_blank 0 #[]⟩
  | append_singleton tasks task ih =>
    obtain ⟨n, small, ready⟩ := ih
    rw [after_concat]
    rcases Nat.lt_or_ge task.selection.pointCount pointLimit with fits | big
    · refine ⟨_, ?_, (task.run_step fits ready).2.2.2⟩
      cases size : task.visitSize with
      | none => exact small
      | some m => exact (task.pointCount_of_visitSize size).symm.trans_lt fits
    · exact ⟨n, small, by rwa [task.visits_of_oversized big ready small]⟩

/-- **A workspace has no memory.** After any tasks, of whatever sizes and whether they failed or
not, a task answers and reports what it does in a workspace that was not used. It leaves each part
sized for the latest task that used the part. -/
theorem run_independent [Memory] (before : List Task) (task : Task)
    (small : ∀ t ∈ before ++ [task], t.selection.pointCount < pointLimit) :
    (task.run (Workspace.after before)).result = (task.run {}).result ∧
      (task.run (Workspace.after before)).reports = (task.run {}).reports ∧
      (task.run (Workspace.after before)).state.capacities =
        (Task.latest Task.searchSize (before ++ [task]),
          Task.latest Task.visitSize (before ++ [task])) := by
  obtain ⟨capacity, ready⟩ := Workspace.after_ready before
    fun t mem => small t (List.mem_append_left _ mem)
  obtain ⟨result, reports, searched, left⟩ := task.run_step (small task (by simp)) ready
  refine ⟨result, reports, ?_⟩
  rw [Task.latest_concat, Task.latest_concat, ← capacity, ← searched, ← left.size]
  rfl

/-- A search that fails on its way, with points on its path. -/
def Task.strayed : Task :=
  .components ⟨"strayed", #[true, true, true]⟩ (RowGraph.ofRows [[1], [2], [0, 7]])

theorem run_after_strayed :
    (∀ t ∈ [Task.strayed] ++ [.reach Component.onCycles Component.twoCycles 1],
      t.selection.pointCount < pointLimit) ∧
    ((Task.reach Component.onCycles Component.twoCycles 1).run
      (Workspace.after [.strayed])).result =
        (Component.onCycles.reach Component.twoCycles 1 {}).result ∧
    ((Task.reach Component.onCycles Component.twoCycles 1).run
      (Workspace.after [.strayed])).state.capacities = (3, 5) := by
  have small : ∀ t ∈ [Task.strayed] ++ [.reach Component.onCycles Component.twoCycles 1],
      t.selection.pointCount < pointLimit := by
    intro t mem
    simp only [List.singleton_append, List.mem_cons, List.not_mem_nil, or_false] at mem
    rcases mem with rfl | rfl <;> decide
  obtain ⟨result, -, capacities⟩ := run_independent [.strayed] _ small
  exact ⟨small, result, capacities.trans rfl⟩

end Navigability
