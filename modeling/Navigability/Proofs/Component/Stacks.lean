import Navigability.Proofs.Component.Course
import Navigability.Proofs.Component.Partition

/-!
# The stacks of a component search

At every stage of a search the trail holds the points that are visited and not put out, in the order
in which they were entered, and the marks on the points say the same. The path is a part of the
trail: its bottom is a root, and every other point of it was entered along a row from the point
below. From every point of the trail there is a way to a point of the path that was entered no
later, so nothing is on the trail when the path is empty. When a root is closed, it comes off the
trail with what lies above it, and nothing below it does. All that comes off is put out, because no
point of the trail was put out before.

## Main definitions

* `Snapshot.Stacked`: what the two stacks and the marks hold
* `Closes`: what becomes of the trail when a point is closed

## Main results

* `Search.Sound.stacked`: the invariant of a search says so
* `Search.Sound.closes`: a turn that closes a point puts out what it takes off the trail
* `stacks_hold`: both hold at every stage of a search
-/

namespace Navigability.Component

open Attempt

variable {γ : Type} [Adjacency γ] {selection : Selection} {graph : γ} {buffers : Buffers}
  {s s' t : Search} {σ : Snapshot} {v : Nat}

/-- What the path and the trail hold, both with the latest point first, and what the points are
marked with. -/
structure Snapshot.Stacked (selection : Selection) (graph : γ) (σ : Snapshot) : Prop where
  mem_trail_iff : ∀ p, p ∈ σ.trail ↔ σ.index p ≠ 0 ∧ ¬ σ.listed p
  trail_nodup : σ.trail.Nodup
  descending : σ.trail.Pairwise fun p q => σ.index q < σ.index p
  onTrail_iff : ∀ p, σ.onTrail p ↔ p ∈ σ.trail
  listed_iff : ∀ p, σ.listed p ↔ ∃ component ∈ σ.components, p ∈ component
  path_sublist : σ.path.Sublist σ.trail
  bottom : ∀ v ∈ σ.path.getLast?, σ.parent v = v
  linked : σ.path.IsChain fun v u => σ.parent v = u ∧ selection.Step graph u v
  supported : ∀ x ∈ σ.trail, ∃ y ∈ σ.path, σ.index y ≤ σ.index x ∧ selection.Reaches graph x y
  trail_nil : σ.path = [] → σ.trail = []

/-- What becomes of the trail when a point is closed. A point that reaches an earlier one stays on
it. At a root `complete` takes the points down to it off the trail, of which there is at least the
root and none below it, and puts out all that it takes off. -/
inductive Closes (v : Nat) (s s' : Search) : Prop
  | stays (earlier : s'.snapshot.low v < s.snapshot.index v)
      (trail : s'.snapshot.trail = s.snapshot.trail)
      (components : s'.snapshot.components = s.snapshot.components) : Closes v s s'
  | comesOff {t t' : Search} {above : List Nat} (root : s'.snapshot.low v = s.snapshot.index v)
      (begun : t.snapshot.trail = s.snapshot.trail)
      (ran : complete v t = .ok () s')
      (unwound : unwind v t.trail #[] t = .ok (above ++ [v]).toArray t')
      (cut : s.snapshot.trail = (above ++ [v]) ++ s'.snapshot.trail)
      (stops : v ∉ above)
      (fresh : ∀ p ∈ above ++ [v], ¬ t.snapshot.listed p)
      (components : s'.snapshot.components = s.snapshot.components ++ [above ++ [v]]) :
    Closes v s s'

/-! ## The stacks at a stage -/

/-- The path is linked from its top down to its root. What is below a point on it is a suffix of it,
so the induction is on suffixes. -/
theorem Snapshot.Bookkeeping.path_linked (book : σ.Bookkeeping selection graph) :
    σ.path.IsChain fun v u => σ.parent v = u ∧ selection.Step graph u v := by
  suffices chain : ∀ path, path <:+ σ.path →
      path.IsChain fun v u => σ.parent v = u ∧ selection.Step graph u v from
    chain σ.path List.suffix_rfl
  intro path
  induction path with
  | nil => exact fun _ => .nil
  | cons v below ih =>
    intro suffix
    obtain ⟨parent, step⟩ := book.linked v below suffix
    have chain := ih ((List.suffix_cons v below).trans suffix)
    cases below with
    | nil => exact .singleton v
    | cons u rest => exact .cons_cons ⟨parent, step u rfl⟩ chain

theorem Snapshot.Bookkeeping.parent_bottom (book : σ.Bookkeeping selection graph) :
    ∀ v ∈ σ.path.getLast?, σ.parent v = v := by
  intro v last
  obtain ⟨above, shape⟩ := List.getLast?_eq_some_iff.1 last
  exact (book.linked v [] (shape ▸ List.suffix_append above [v])).1

/-- **The stacks of a sound search** hold what its marks say. -/
theorem Search.Sound.stacked (sound : s.Sound selection graph) :
    s.snapshot.Stacked selection graph := by
  have inv := sound.invariant
  constructor
  case mem_trail_iff =>
    intro p
    rw [inv.visited_iff, inv.listed_iff]
    constructor
    · exact fun trail => ⟨.inl trail, inv.not_listed trail⟩
    · exact fun ⟨visited, fresh⟩ => visited.resolve_right fresh
  case trail_nodup => exact inv.trail_nodup
  case descending => exact inv.descending
  case onTrail_iff => exact inv.onTrail_iff
  case listed_iff =>
    intro p
    rw [inv.listed_iff, List.mem_flatten]
  case path_sublist => exact inv.path_sublist
  case bottom => exact inv.parent_bottom
  case linked => exact inv.path_linked
  case supported => exact inv.supported
  case trail_nil => exact sound.trail_eq_nil

/-! ## Closing a point -/

theorem Snapshot.retire_low_self (σ : Snapshot) (point low : Nat) :
    (σ.retire point low).low point = low := by
  rw [retire]
  split
  · exact Function.update_self ..
  · next other =>
    exact (Function.update_of_ne (Ne.symm other) _ _).trans (Function.update_self ..)

/-- A turn that closes a point puts down how far its row was read, which is to the end, and then
closes it. -/
theorem close_of_turn (sound : s.Sound selection graph)
    (ran : turn selection graph s = .ok (.closed v) s') :
    ∃ below t stop, s.snapshot.path = v :: below ∧
      close selection v (Adjacency.row graph v) t = .ok () s' ∧
      t.points.size = s.points.size ∧ t.snapshot = s.snapshot.readTo v stop := by
  cases path : s.snapshot.path with
  | nil =>
    rw [turn_finished path] at ran
    cases ran
  | cons u below =>
    have inside := sound.inside_of_trail
      (sound.invariant.trail_of_path (Snapshot.top_mem path))
    obtain ⟨act, acts, enters, closes⟩ := turn_eq sound path
    rw [acts, bind_eq_ok] at ran
    obtain ⟨⟨next, stop⟩, r, found, ran⟩ := ran
    obtain ⟨-, rfl⟩ := check_eq_ok.1 found
    cases next with
    | some w =>
      rw [enters] at ran
      simp only [bind_eq_ok, pure_eq_ok] at ran
      obtain ⟨_, _, -, _, _, -, other, -⟩ := ran
      cases other
    | none =>
      rw [closes, bind_of_ok (setState_of_lt inside _), bind_eq_ok] at ran
      obtain ⟨_, r', closed, returned⟩ := ran
      obtain ⟨same, rfl⟩ := pure_eq_ok.1 returned
      cases same
      refine ⟨below, _, stop, rfl, closed, Search.size_put _, ?_⟩
      rw [Search.snapshot_put inside, Search.put_position]

/-- Closing a point retires it, and puts out its component if it reaches no earlier point. -/
theorem retire_of_turn (sound : s.Sound selection graph)
    (ran : turn selection graph s = .ok (.closed v) s') :
    ∃ below stop low t, s.snapshot.path = v :: below ∧ low ≤ s.snapshot.index v ∧
      t.points.size = s.points.size ∧ t.snapshot = (s.snapshot.readTo v stop).retire v low ∧
      (if low = s.snapshot.index v then complete v else pure ()) t = .ok () s' := by
  have inv := sound.invariant
  obtain ⟨below, r, stop, path, closed, size, shown⟩ := close_of_turn sound ran
  have top := Snapshot.top_mem path
  have inside : ∀ {p}, p ∈ s.snapshot.trail → p < r.points.size := fun h =>
    (sound.inside_of_trail h).trans_eq size.symm
  have parent : r.snapshot.parent v ∈ s.snapshot.trail := by
    rw [shown]
    exact inv.trail_of_path (inv.parent_mem_path path)
  obtain ⟨low, t, value, acts, sized, retired⟩ := close_eq (inside (inv.trail_of_path top))
    (inside parent)
    fun w (_ : w ∈ Adjacency.row graph v) member => (sound.inside member).trans_eq size.symm
  have index : (r.stateOf v).index.toNat = s.snapshot.index v :=
    congrArg (fun σ : Snapshot => σ.index v) shown
  refine ⟨below, stop, low.toNat, t, path, ?_, sized.trans size, shown ▸ retired, ?_⟩
  · rw [value, shown]
    exact Snapshot.lowest_le.trans (inv.low_le v top)
  · rw [← closed, acts, ← index]
    simp only [UInt32.toNat_inj]

/-- Putting out a component takes the points down to its root off the trail. -/
theorem unwind_of_complete {above rest : List Nat} (shape : t.snapshot.trail = above ++ v :: rest)
    (distinct : (above ++ [v]).Nodup) (inside : ∀ p ∈ above ++ [v], p < t.points.size)
    (fresh : ∀ p ∈ above ++ [v], ¬ t.snapshot.listed p) (ran : complete v t = .ok () s') :
    (∃ t', unwind v t.trail #[] t = .ok (above ++ [v]).toArray t') ∧
      s'.snapshot.low = t.snapshot.low ∧ s'.snapshot.trail = rest ∧
      s'.snapshot.components = t.snapshot.components ++ [above ++ [v]] := by
  obtain ⟨t', unwound, -, -⟩ := unwind_snapshot #[] shape distinct inside fresh
  obtain ⟨_, ran', -, shown⟩ := complete_snapshot v shape distinct inside fresh
  cases ran.symm.trans ran'
  rw [Snapshot.complete, shape, unstack_append rest distinct] at shown
  exact ⟨⟨t', by simpa using unwound⟩, by rw [shown]; rfl, by rw [shown]; rfl, by rw [shown]⟩

/-- **A turn that closes a point** leaves the trail as it is, or puts out what it takes off it, down
to the point. Before that nothing has come off the trail and nothing was marked. -/
theorem Search.Sound.closes (sound : s.Sound selection graph)
    (ran : turn selection graph s = .ok (.closed v) s') : Closes v s s' := by
  have inv := sound.invariant
  obtain ⟨below, stop, low, t, path, le, size, shown, acts⟩ := retire_of_turn sound ran
  have begun : t.snapshot.trail = s.snapshot.trail := by
    rw [shown, Snapshot.retire_trail]
    rfl
  have listed : t.snapshot.listed = s.snapshot.listed := by
    rw [shown, Snapshot.retire_listed]
    rfl
  have components : t.snapshot.components = s.snapshot.components := by
    rw [shown, Snapshot.retire_components]
    rfl
  have told : t.snapshot.low v = low := by rw [shown, Snapshot.retire_low_self]
  by_cases root : low = s.snapshot.index v
  · rw [if_pos root] at acts
    obtain ⟨above, rest, shape⟩ :=
      List.append_of_mem (inv.trail_of_path (Snapshot.top_mem path))
    obtain ⟨distinct, cut⟩ := inv.trail_cut shape
    have fresh : ∀ p ∈ above ++ [v], ¬ t.snapshot.listed p := by
      intro p mem
      rw [listed]
      exact inv.unlisted_of_trail (cut p mem).1
    obtain ⟨⟨t', unwound⟩, low', left, out⟩ := unwind_of_complete (begun.trans shape) distinct
      (fun p mem => (sound.inside_of_trail (cut p mem).1).trans_eq size.symm) fresh acts
    have stops : v ∉ above := fun mem =>
      (List.nodup_append.1 distinct).2.2 v mem v (List.mem_singleton_self v) rfl
    refine .comesOff ?_ begun acts unwound ?_ stops fresh (components ▸ out)
    · rw [low', told, root]
    · rw [left, shape, List.append_assoc, List.singleton_append]
  · rw [if_neg root] at acts
    obtain ⟨-, rfl⟩ := pure_eq_ok.1 acts
    exact .stays (told.symm ▸ Nat.lt_of_le_of_ne le root) begun components

/-- **The stacks hold at every stage.** The stages lead from the start of a search to its end, and
from each of them the search comes to what it returns. At every stage the path, the trail and the
marks are in step, and a turn that closes a point either leaves the trail as it is, or takes the
points down to the closed one off it, the closed one among them, and puts all of them out. -/
theorem stacks_hold (graph : γ) (small : selection.pointCount < pointLimit) (buffers : Buffers) :
    (∃ stage, Course selection graph buffers stage ∧
      (stage.Done ∨ ∃ v w, stage.Fails selection graph v w)) ∧
    ∀ stage, Course selection graph buffers stage →
      selection.components graph buffers = conclude selection (stage.rest selection graph) ∧
      stage.search.snapshot.Stacked selection graph ∧
      ∀ v s', turn selection graph stage.search = .ok (.closed v) s' →
        Closes v stage.search s' := by
  constructor
  · obtain ⟨stage, course, ⟨done, -⟩ | ⟨v, w, fails, -⟩⟩ := exists_course_end graph small buffers
    · exact ⟨stage, course, .inl done⟩
    · exact ⟨stage, course, .inr ⟨v, w, fails⟩⟩
  · intro stage course
    have sound := course.sound.search
    exact ⟨course.components_eq, sound.stacked, fun v s' => sound.closes⟩

/-- The search on the two cycles, after its first root was entered and a number of turns made. -/
def onTheWay : Nat → Search
  | 0 => left (enter 0 0 { toBuffers := Buffers.blank 5 })
  | n + 1 => left (turn onCycles twoCycles (onTheWay n))

/-- Three points are entered one from the other, and the last one is closed again. -/
theorem course_onTheWay : Course onCycles twoCycles {} ⟨[1, 3, 4], onTheWay 4⟩ := by
  have ready : Buffers.reset onCycles.pointCount {} = .ok () (Buffers.blank 5) :=
    Buffers.reset_of_lt (by decide) _
  have found : stateAt 0 { toBuffers := Buffers.blank 5 } =
      .ok {} { toBuffers := Buffers.blank 5 } := rfl
  have entered : Course onCycles twoCycles {} ⟨[1, 3, 4], onTheWay 0⟩ :=
    (Course.start ready).next (.enter rfl found rfl (eq_ok_left (by decide +kernel)))
  have first := entered.turned (.entered 1) (by decide +kernel) (by decide)
  have second := first.turned (.entered 3) (by decide +kernel) (by decide)
  have third := second.turned (.entered 4) (by decide +kernel) (by decide)
  exact third.turned (.closed 4) (by decide +kernel) (by decide)

/-- Below the root of the second cycle the first one is still open; closing the root puts out the
second cycle and leaves the first one on the trail. -/
theorem stacks_twoCycles :
    onCycles.pointCount < pointLimit ∧
    Course onCycles twoCycles {} ⟨[1, 3, 4], onTheWay 4⟩ ∧
    (onTheWay 4).snapshot.Stacked onCycles twoCycles ∧
    (onTheWay 4).snapshot.path = [3, 1, 0] ∧ (onTheWay 4).snapshot.trail = [4, 3, 1, 0] ∧
    Closes 3 (onTheWay 4) (onTheWay 5) ∧ (onTheWay 5).snapshot.trail = [1, 0] ∧
    (onTheWay 5).snapshot.components = [[4, 3]] := by
  have small : onCycles.pointCount < pointLimit := by decide
  have closed : outcome (turn onCycles twoCycles (onTheWay 4)) = .ok (.closed 3) := by
    decide +kernel
  obtain ⟨-, hold⟩ := stacks_hold twoCycles small {}
  obtain ⟨-, stacked, closes⟩ := hold _ course_onTheWay
  exact ⟨small, course_onTheWay, stacked, by decide +kernel, by decide +kernel,
    closes 3 _ (eq_ok_left closed), by decide +kernel, by decide +kernel⟩

end Navigability.Component
