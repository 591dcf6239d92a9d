import Navigability.Proofs.Attempt
import Navigability.Proofs.Component.Outcome

/-!
# The course of a component search

A search goes from stage to stage. At every stage it stands in front of a turn, or, when its path is
empty, in front of the next root. It leaves out a root that was visited, enters one that was not,
and then makes turns until the path is empty again. From each stage of its course the search has
still to do what it had to do from the start, so the stages are those that the search comes by; and
there are finitely many, since a stage leaves less to do than the one before it.

## Main definitions

* `Stage`: the roots to come, and a search
* `Stage.Next`: how a search goes from one stage to the next
* `Stage.rest`: what a search has still to do
* `Course`: the stages of a search for the components of a selection

## Main results

* `Course.sound`: the search of every stage has the invariant
* `Course.components_eq`: from every stage the search comes to what it comes to from the start
* `Stage.next_or_end`: the course goes on to the next stage, or the search ends
* `exists_course_end`: the course leads to the end of the search
-/

namespace Navigability.Component

open Attempt

variable {γ : Type} [Adjacency γ] {selection : Selection} {graph : γ} {buffers : Buffers}

/-- Where a search stands in front of a turn or of a root: the roots to come, and the search. -/
structure Stage where
  roots : List Nat
  search : Search

namespace Stage

/-- How a search goes from one stage to the next. With an empty path it takes the next root, which
it leaves out if it was visited and enters if it was not; otherwise it makes a turn. -/
inductive Next (selection : Selection) (graph : γ) : Stage → Stage → Prop
  | skip {root : Nat} {roots : List Nat} {s : Search} {state : PointState} (path : s.path = [])
      (found : stateAt root s = .ok state s) (visited : state.index ≠ 0) :
    Next selection graph ⟨root :: roots, s⟩ ⟨roots, s⟩
  | enter {root : Nat} {roots : List Nat} {s s' : Search} {state : PointState} (path : s.path = [])
      (found : stateAt root s = .ok state s) (fresh : state.index = 0)
      (ran : Component.enter root root s = .ok () s') :
    Next selection graph ⟨root :: roots, s⟩ ⟨roots, s'⟩
  | turn {roots : List Nat} {s s' : Search} {done : Turn}
      (ran : Component.turn selection graph s = .ok done s') (more : done ≠ .finished) :
    Next selection graph ⟨roots, s⟩ ⟨roots, s'⟩

/-- What a search has still to do: turns until the path is empty, and the roots to come. -/
def rest (selection : Selection) (graph : γ) (stage : Stage) : EStateM.Result Failure Search Unit :=
  (drain selection graph >>= fun _ => searchRoots selection graph stage.roots) stage.search

/-- A bound on the number of stages to come. -/
def pending (stage : Stage) : Nat := stage.search.pending + stage.roots.length

variable {stage stage' : Stage}

theorem rest_of_path_nil {roots : List Nat} {s : Search} (path : s.path = []) :
    rest selection graph ⟨roots, s⟩ = searchRoots selection graph roots s := by
  have empty : s.snapshot.path = [] := List.map_eq_nil_iff.2 path
  rw [rest, bind_of_ok (drain_of_path_nil empty)]

/-- A stage leaves the same to do as the one before it. -/
theorem Next.rest_eq (next : stage.Next selection graph stage') :
    stage.rest selection graph = stage'.rest selection graph := by
  cases next with
  | skip path found visited =>
    rw [rest_of_path_nil path, rest_of_path_nil path, searchRoots, bind_of_ok found,
      if_neg visited]
  | enter path found fresh ran =>
    rw [rest_of_path_nil path, searchRoots, bind_of_ok found, if_pos fresh]
    exact bind_of_ok ran
  | turn ran more => exact bind_of_eq (drain_of_turn ran more)

/-- A stage leaves less to do than the one before it. -/
theorem Next.pending_lt (next : stage.Next selection graph stage') :
    stage'.pending < stage.pending := by
  cases next with
  | skip => simp [Stage.pending]
  | enter path found fresh ran =>
    obtain ⟨h, index, nonzero, indices, length⟩ := enter_spec ran
    obtain ⟨inside, rfl, -⟩ := stateAt_eq_ok.1 found
    have less := pending_set_lt h (by simpa [Search.indices] using fresh) nonzero indices length
    simp only [Stage.pending, List.length_cons]
    omega
  | turn ran more => exact Nat.add_lt_add_right (pending_turn_lt ran more) _

/-! ## Sound stages -/

/-- A stage whose search has the invariant, with members as roots to come. -/
structure Sound (selection : Selection) (graph : γ) (stage : Stage) : Prop where
  search : stage.search.Sound selection graph
  roots : ∀ root ∈ stage.roots, selection.isMember root

theorem Next.sound (next : stage.Next selection graph stage')
    (sound : stage.Sound selection graph) : stage'.Sound selection graph := by
  obtain ⟨search, members⟩ := sound
  cases next with
  | skip => exact ⟨search, (List.forall_mem_cons.1 members).2⟩
  | @enter root roots s s' state path found fresh ran =>
    obtain ⟨member, members⟩ := List.forall_mem_cons.1 members
    have unvisited : s.snapshot.index root = 0 := by
      rw [stateAt_of_lt (search.inside member)] at found
      cases found
      exact congrArg UInt32.toNat fresh
    obtain ⟨t, ran', sound', -⟩ := enter_root search (List.map_eq_nil_iff.2 path) member unvisited
    rw [ran] at ran'
    cases ran'
    exact ⟨sound', members⟩
  | @turn roots s s' done ran more =>
    refine ⟨?_, members⟩
    cases path : s.snapshot.path with
    | nil =>
      rw [turn_finished path] at ran
      cases ran
      exact absurd rfl more
    | cons v below =>
      rcases turn_goes_on search path with ⟨w, -, failed⟩ | ⟨done', t, ran', -, sound', -⟩
      · rw [failed] at ran
        cases ran
      · rw [ran] at ran'
        cases ran'
        exact sound'

/-- The search is done: its path is empty, and there is no root to come. -/
def Done (stage : Stage) : Prop := stage.roots = [] ∧ stage.search.path = []

/-- The turn to come ends the search, because the row of a member strays. -/
def Fails (selection : Selection) (graph : γ) (stage : Stage) (v w : Nat) : Prop :=
  selection.Strays graph v w ∧ Component.turn selection graph stage.search =
    .error (.neighborOutOfRange v w selection.pointCount) stage.search

/-- **The course goes on**, or the search is done, or it fails. -/
theorem next_or_end (sound : stage.Sound selection graph) :
    (∃ stage', stage.Next selection graph stage') ∨ stage.Done ∨
      ∃ v w, stage.Fails selection graph v w := by
  obtain ⟨roots, s⟩ := stage
  obtain ⟨search, members⟩ := sound
  cases path : s.snapshot.path with
  | nil =>
    have empty : s.path = [] := List.map_eq_nil_iff.1 path
    cases roots with
    | nil => exact .inr (.inl ⟨rfl, empty⟩)
    | cons root roots =>
      have member := members root List.mem_cons_self
      have found := stateAt_of_lt (search.inside member)
      by_cases fresh : (s.stateOf root).index = 0
      · obtain ⟨t, ran, -⟩ := enter_root search path member (congrArg UInt32.toNat fresh)
        exact .inl ⟨_, .enter empty found fresh ran⟩
      · exact .inl ⟨_, .skip empty found fresh⟩
  | cons v below =>
    rcases turn_goes_on search path with ⟨w, strays, failed⟩ | ⟨done, t, ran, more, -⟩
    · exact .inr (.inr ⟨v, w, strays, failed⟩)
    · exact .inl ⟨_, .turn ran more⟩

end Stage

/-! ## The stages of a search -/

/-- The stages of the search for the components of a selection, in given storage. -/
inductive Course (selection : Selection) (graph : γ) (buffers : Buffers) : Stage → Prop
  | start {emptied : Buffers}
      (ready : Buffers.reset selection.pointCount buffers = .ok () emptied) :
    Course selection graph buffers ⟨selection.members, { toBuffers := emptied }⟩
  | next {stage stage' : Stage} (course : Course selection graph buffers stage)
      (next : stage.Next selection graph stage') : Course selection graph buffers stage'

/-- What is returned, left and reported when a search ends. -/
def conclude (selection : Selection) : EStateM.Result Failure Search Unit →
    Run Buffers Event Listing
  | .ok () s =>
    { result := .ok (s.listing selection)
      state := s.toBuffers
      reports := s.snapshot.reports ++ [(s.listing selection).event] }
  | .error failure s =>
    { result := .error failure, state := s.toBuffers, reports := s.snapshot.reports }

namespace Course

theorem turned {roots : List Nat} {s : Search}
    (course : Course selection graph buffers ⟨roots, s⟩) (done : Turn)
    (ran : outcome (turn selection graph s) = .ok done) (more : done ≠ .finished) :
    Course selection graph buffers ⟨roots, left (turn selection graph s)⟩ :=
  course.next (.turn (eq_ok_left ran) more)

variable {stage : Stage} (course : Course selection graph buffers stage)

include course

/-- Storage is emptied for fewer points than it can number. -/
theorem small : selection.pointCount < pointLimit := by
  induction course with
  | start ready =>
    rw [Buffers.reset] at ready
    split at ready
    · cases ready
    · next small => exact Nat.lt_of_not_le small
  | next _ _ ih => exact ih

/-- **The search of every stage** has the invariant. -/
theorem sound : stage.Sound selection graph := by
  have small := course.small
  induction course with
  | start ready =>
    rw [Buffers.reset_of_lt small] at ready
    cases ready
    exact ⟨.blank small, fun root => Selection.mem_members_iff.1⟩
  | next _ next ih => exact next.sound ih

theorem rest_eq : stage.rest selection graph = searchRoots selection graph selection.members
    { toBuffers := Buffers.blank selection.pointCount } := by
  have small := course.small
  induction course with
  | start ready =>
    rw [Buffers.reset_of_lt small] at ready
    cases ready
    exact Stage.rest_of_path_nil rfl
  | next _ next ih => exact next.rest_eq.symm.trans ih

/-- **From every stage** the search comes to what it comes to from the start. -/
theorem components_eq : selection.components graph buffers =
    conclude selection (stage.rest selection graph) := by
  rw [course.rest_eq]
  cases ran : searchRoots selection graph selection.members
      { toBuffers := Buffers.blank selection.pointCount } with
  | ok u s => exact components_of_search buffers course.small ran
  | error failure s => exact components_of_search_error buffers course.small ran

end Course

/-- **The course leads to the end** of the search, where it is done or fails, since every stage
leaves fewer to come. -/
theorem exists_course_end (graph : γ) (small : selection.pointCount < pointLimit)
    (buffers : Buffers) : ∃ stage, Course selection graph buffers stage ∧
      (stage.Done ∧ stage.rest selection graph = .ok () stage.search ∨
        ∃ v w, stage.Fails selection graph v w ∧ stage.rest selection graph =
          .error (.neighborOutOfRange v w selection.pointCount) stage.search) := by
  suffices goesOn : ∀ n stage, stage.pending = n → Course selection graph buffers stage →
      ∃ stage, Course selection graph buffers stage ∧
        (stage.Done ∨ ∃ v w, stage.Fails selection graph v w) by
    obtain ⟨⟨roots, s⟩, course, ends⟩ := goesOn _ _ rfl (.start (Buffers.reset_of_lt small buffers))
    refine ⟨⟨roots, s⟩, course, ends.imp ?_ ?_⟩
    · rintro ⟨rfl, path⟩
      exact ⟨⟨rfl, path⟩, Stage.rest_of_path_nil path⟩
    · rintro ⟨v, w, strays, failed⟩
      exact ⟨v, w, ⟨strays, failed⟩, bind_of_error (drain_of_error failed)⟩
  intro n
  induction n using Nat.strong_induction_on with
  | h n ih =>
    rintro stage rfl course
    rcases Stage.next_or_end course.sound with ⟨stage', next⟩ | ends
    · exact ih _ next.pending_lt stage' rfl (course.next next)
    · exact ⟨stage, course, ends⟩

end Navigability.Component
