import Navigability.Component.Turn

/-!
# Progress of the component search

A turn either enters a point that was not visited or takes a point off the path. So the number of
points that are not visited, counted twice, and the length of the path together become less with
every turn that does something, and a search comes to an end after at most twice as many turns as
there are points.

## Main definitions

* `Search.pending`: a bound on the number of turns to come

## Main results

* `enter_spec`, `close_spec`: what becomes of the visit numbers and of the path
* `turn_spec`: what a turn does to them
* `pending_turn_lt`: a turn that does something leaves less to do
-/

namespace Navigability.Component

open Attempt

namespace Search

/-- The visit numbers of the points. -/
def indices (s : Search) : Array UInt32 := s.points.map PointState.index

/-- How many points are not visited. -/
def unvisited (s : Search) : Nat := s.indices.count 0

/-- A bound on the number of turns to come: an unvisited point can be entered and closed, and a
point on the path can be closed. -/
def pending (s : Search) : Nat := 2 * s.unvisited + s.path.length

end Search

variable {s s' : Search} {point : Nat} {u : Unit}

/-! ## Access to the storage -/

theorem stateAt_eq_ok {state : PointState} : stateAt point s = .ok state s' ↔
    ∃ h : point < s.points.size, s.points[point] = state ∧ s = s' := by
  simp only [stateAt, bind_eq_ok, get_eq_ok, check_eq_ok, fetch]
  constructor
  · rintro ⟨_, _, ⟨rfl, rfl⟩, found, rfl⟩
    split at found
    · next h => exact ⟨h, Except.ok.inj found, rfl⟩
    · cases found
  · rintro ⟨h, rfl, rfl⟩
    exact ⟨_, _, ⟨rfl, rfl⟩, by simp [h], rfl⟩

theorem setState_eq_ok {state : PointState} : setState point state s = .ok u s' ↔
    ∃ h : point < s.points.size, { s with points := s.points.set point state h } = s' := by
  by_cases h : point < s.points.size <;> simp [setState, h]

theorem nextIndex_eq_ok {index : UInt32} : nextIndex s = .ok index s' ↔
    s.lastIndex + 1 ≠ 0 ∧ s.lastIndex + 1 = index ∧
      { s with lastIndex := s.lastIndex + 1 } = s' := by
  by_cases h : s.lastIndex + 1 = 0 <;> simp [nextIndex, h]

/-! ## What becomes of the visit numbers and of the path -/

theorem indices_setState {state : PointState} (ran : setState point state s = .ok u s')
    (same : ∃ h : point < s.points.size, state.index = s.points[point].index) :
    s'.indices = s.indices ∧ s'.path = s.path := by
  obtain ⟨h, rfl⟩ := setState_eq_ok.1 ran
  obtain ⟨_, same⟩ := same
  refine ⟨?_, rfl⟩
  apply Array.ext
  · simp [Search.indices]
  · intro i hi _
    simp only [Search.indices, Array.getElem_map, Array.getElem_set]
    split
    · next eq => subst eq; exact same
    · rfl

theorem enter_spec {parent : Nat} (ran : enter point parent s = .ok u s') :
    ∃ h : point < s.indices.size, ∃ index : UInt32, index ≠ 0 ∧
      s'.indices = s.indices.set point index h ∧ s'.path.length = s.path.length + 1 := by
  simp only [enter, bind_eq_ok, nextIndex_eq_ok, stateAt_eq_ok, setState_eq_ok,
    modify_eq_ok] at ran
  obtain ⟨index, _, ⟨nonzero, rfl, rfl⟩, _, _, ⟨h, rfl, rfl⟩, _, _, ⟨_, rfl⟩, rfl⟩ := ran
  exact ⟨by simpa [Search.indices] using h, _, nonzero, by simp [Search.indices], by simp⟩

/-- Taking points off the trail changes no visit number and leaves the path as it is. -/
theorem unwind_spec {root : Nat} {trail : List UInt32} {taken component : Array Nat}
    (ran : unwind root trail taken s = .ok component s') :
    s'.indices = s.indices ∧ s'.path = s.path := by
  induction trail generalizing s taken with
  | nil =>
    obtain ⟨_, rfl⟩ := pure_eq_ok.1 ran
    exact ⟨rfl, rfl⟩
  | cons top trail ih =>
    simp only [unwind, bind_eq_ok, stateAt_eq_ok] at ran
    obtain ⟨state, _, ⟨h, rfl, rfl⟩, _, t, marked, _, t', cut, ran⟩ := ran
    obtain ⟨sameIndices, samePath⟩ := indices_setState marked ⟨h, rfl⟩
    have cut : t'.indices = t.indices ∧ t'.path = t.path := by
      rw [← modify_eq_ok.1 cut]
      exact ⟨rfl, rfl⟩
    rw [← sameIndices, ← samePath, ← cut.1, ← cut.2]
    split at ran
    · obtain ⟨_, rfl⟩ := pure_eq_ok.1 ran
      exact ⟨rfl, rfl⟩
    · exact ih ran

theorem complete_spec {root : Nat} (ran : complete root s = .ok u s') :
    s'.indices = s.indices ∧ s'.path = s.path := by
  simp only [complete, bind_eq_ok, get_eq_ok, modify_eq_ok] at ran
  obtain ⟨_, _, ⟨rfl, rfl⟩, component, t, unwound, rfl⟩ := ran
  exact (unwind_spec unwound : t.indices = s.indices ∧ t.path = s.path)

theorem lower_spec {low : UInt32} (ran : lower point low s = .ok u s') :
    s'.indices = s.indices ∧ s'.path = s.path := by
  simp only [lower, bind_eq_ok, stateAt_eq_ok] at ran
  obtain ⟨state, _, ⟨h, rfl, rfl⟩, ran⟩ := ran
  exact indices_setState ran ⟨h, rfl⟩

/-- Closing a point takes it off the path. Neither telling the parent nor completing a component
changes a visit number. -/
theorem close_spec {selection : Selection} {row : List Nat}
    (ran : close selection point row s = .ok u s') :
    s'.indices = s.indices ∧ s'.path = s.path.tail := by
  simp only [close, bind_eq_ok, stateAt_eq_ok, get_eq_ok, check_eq_ok] at ran
  obtain ⟨state, _, ⟨h, rfl, rfl⟩, _, _, ⟨rfl, rfl⟩, low, _, ⟨_, rfl⟩, _, t, lowered, _, t', popped,
    ran⟩ := ran
  obtain ⟨sameIndices, samePath⟩ := indices_setState lowered ⟨h, rfl⟩
  have popped : t'.indices = t.indices ∧ t'.path = t.path.tail := by
    rw [← modify_eq_ok.1 popped]
    exact ⟨rfl, rfl⟩
  rw [← sameIndices, ← samePath, ← popped.1, ← popped.2]
  have rest : ∀ {t : Search}, (if low = s.points[point].index then complete point else pure ()) t =
      .ok u s' → s'.indices = t.indices ∧ s'.path = t.path := by
    intro t ran
    split at ran
    · exact complete_spec ran
    · obtain ⟨_, rfl⟩ := pure_eq_ok.1 ran
      exact ⟨rfl, rfl⟩
  split at ran
  · exact rest ran
  · simp only [bind_eq_ok] at ran
    obtain ⟨_, r, lowered, ran⟩ := ran
    rw [← (lower_spec lowered).1, ← (lower_spec lowered).2]
    exact rest ran

/-! ## Turns -/

theorem findUnvisited_spec {selection : Selection} {points : Array PointState} {row : List Nat}
    {position position' neighbor : Nat}
    (found : findUnvisited selection points point row position = .ok (some neighbor, position')) :
    ∃ h : neighbor < points.size, points[neighbor].index = 0 := by
  induction row generalizing position with
  | nil => simp [findUnvisited] at found
  | cons next row ih =>
    simp only [findUnvisited, bind, Except.bind] at found
    split at found
    · cases found
    split at found
    · split at found
      · cases found
      · next state fetched =>
        split at found
        · next unvisited =>
          simp only [pure, Except.pure, Except.ok.injEq, Prod.mk.injEq, Option.some.injEq] at found
          obtain ⟨rfl, -⟩ := found
          rw [fetch] at fetched
          split at fetched
          · next h => exact ⟨h, by rw [Except.ok.inj fetched, unvisited]⟩
          · cases fetched
        · exact ih found
    · exact ih found

variable {γ : Type} [Adjacency γ] {selection : Selection} {graph : γ} {done : Turn}

/-- A turn finds the path empty, or numbers a point that was not visited, or takes one off the
path. -/
theorem turn_spec (ran : turn selection graph s = .ok done s') :
    done = .finished ∨
    (∃ neighbor, ∃ h : neighbor < s.indices.size, s.indices[neighbor] = 0 ∧
      ∃ index : UInt32, index ≠ 0 ∧ s'.indices = s.indices.set neighbor index h ∧
        s'.path.length = s.path.length + 1) ∨
    (s'.indices = s.indices ∧ s.path ≠ [] ∧ s'.path = s.path.tail) := by
  simp only [turn, bind_eq_ok, get_eq_ok] at ran
  obtain ⟨_, _, ⟨rfl, rfl⟩, ran⟩ := ran
  cases path : s.path with
  | nil =>
    rw [path] at ran
    exact .inl (pure_eq_ok.1 ran).1.symm
  | cons top below =>
    rw [path] at ran
    simp only [bind_eq_ok, get_eq_ok, stateAt_eq_ok, check_eq_ok] at ran
    obtain ⟨state, _, ⟨h, rfl, rfl⟩, _, _, ⟨rfl, rfl⟩, ⟨next, position⟩, _, ⟨found, rfl⟩, _, t,
      resumed, ran⟩ := ran
    obtain ⟨sameIndices, samePath⟩ := indices_setState resumed ⟨h, rfl⟩
    rw [← path, ← sameIndices, ← samePath]
    cases next with
    | some neighbor =>
      simp only [bind_eq_ok] at ran
      obtain ⟨_, _, entered, ran⟩ := ran
      obtain ⟨-, rfl⟩ := pure_eq_ok.1 ran
      obtain ⟨h, index, nonzero, indices, length⟩ := enter_spec entered
      obtain ⟨h', unvisited⟩ := findUnvisited_spec found
      have unvisited : s.indices[neighbor]? = some 0 := by simp [Search.indices, h', unvisited]
      refine .inr (.inl ⟨neighbor, h, ?_, index, nonzero, indices, length⟩)
      rw [← sameIndices, Array.getElem?_eq_getElem h] at unvisited
      exact Option.some.inj unvisited
    | none =>
      simp only [bind_eq_ok] at ran
      obtain ⟨_, _, closed, ran⟩ := ran
      obtain ⟨-, rfl⟩ := pure_eq_ok.1 ran
      exact .inr (.inr ⟨(close_spec closed).1, by simp [samePath, path], (close_spec closed).2⟩)

/-- Entering a point that was not visited leaves less to do: it takes two off and puts one on. -/
theorem pending_set_lt {index : UInt32} (h : point < s.indices.size)
    (unvisited : s.indices[point] = 0) (nonzero : index ≠ 0)
    (indices : s'.indices = s.indices.set point index h)
    (length : s'.path.length = s.path.length + 1) : s'.pending < s.pending := by
  have one : 0 < s.indices.count 0 := Array.count_pos_iff.2 (unvisited ▸ Array.getElem_mem h)
  have less : s'.indices.count 0 = s.indices.count 0 - 1 := by
    simp [indices, Array.count_set, unvisited, nonzero]
  simp only [Search.pending, Search.unvisited, less, length]
  omega

/-- A turn that does something leaves less to do. -/
theorem pending_turn_lt (ran : turn selection graph s = .ok done s') (more : done ≠ .finished) :
    s'.pending < s.pending := by
  rcases turn_spec ran with finished | ⟨neighbor, h, unvisited, index, nonzero, indices, length⟩ |
      ⟨indices, nonempty, path⟩
  · exact absurd finished more
  · exact pending_set_lt h unvisited nonzero indices length
  · have shorter : s'.path.length = s.path.length - 1 := by rw [path, List.length_tail]
    have := List.length_pos_iff.2 nonempty
    simp only [Search.pending, Search.unvisited, indices, shorter]
    omega

end Navigability.Component
