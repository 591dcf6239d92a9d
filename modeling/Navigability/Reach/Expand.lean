import Navigability.Reach.Buffers

/-!
# Expanding a point

A traversal reads the row of each point it takes from the queue and puts the members it has not
visited at the end of the queue, one level further on. Every point that is put there was not
visited before and is now, so the number of points that are not visited and the length of the
queue together stay the same.

## Main definitions

* `expand`: read the row of a point
* `Buffers.unvisited`: how many points the current traversal has not visited

## Main results

* `expand_spec`: expanding keeps the sum of the unvisited points and the queue's length
-/

namespace Navigability.Reach

open Attempt

/-- Read a row of `point`, which is at distance `level` from the start. -/
def expand (selection : Selection) (point : Nat) (level : UInt32) : List Nat → Attempt Buffers Unit
  | [] => return ()
  | neighbor :: row => do
    if ← Attempt.check (selection.admits point neighbor) then
      if ← visit neighbor then
        enqueue neighbor (← Attempt.check (nextLevel level))
    expand selection point level row

/-- How many points the current traversal has not visited. -/
def Buffers.unvisited (buffers : Buffers) : Nat :=
  buffers.marks.countP fun mark => mark.stamp != buffers.stamp

variable {b b' : Buffers} {u : Unit}

/-- A visit takes a fresh point from those that are not visited, whose marks differ from the
stamp. -/
theorem visit_spec {point : Nat} {fresh : Bool} (ran : visit point b = .ok fresh b') :
    b'.queue = b.queue ∧ b'.stamp = b.stamp ∧
      b'.unvisited + (if fresh then 1 else 0) = b.unvisited := by
  rw [visit] at ran
  split at ran
  · next h =>
    split at ran
    · cases ran
      simp
    · next differs =>
      cases ran
      have pos : 0 < b.unvisited := Array.countP_pos_iff.2
        ⟨b.marks[point], Array.getElem_mem h, by simpa using differs⟩
      simp only [Buffers.unvisited] at pos ⊢
      simp [Array.countP_set, differs]
      omega
  · cases ran

/-- A fresh point leaves those that are not visited and joins the queue; any other does neither. -/
theorem expand_spec {selection : Selection} {point : Nat} {level : UInt32} {row : List Nat}
    (ran : expand selection point level row b = .ok u b') :
    b'.stamp = b.stamp ∧ b.queue.size ≤ b'.queue.size ∧
      b'.unvisited + b'.queue.size = b.unvisited + b.queue.size := by
  induction row generalizing b with
  | nil =>
    obtain ⟨_, rfl⟩ := pure_eq_ok.1 ran
    exact ⟨rfl, Nat.le_refl _, rfl⟩
  | cons neighbor row ih =>
    simp only [expand, bind_eq_ok, check_eq_ok] at ran
    obtain ⟨admitted, _, ⟨_, rfl⟩, ran⟩ := ran
    split at ran
    · simp only [bind_eq_ok] at ran
      obtain ⟨fresh, t, visited, ran⟩ := ran
      obtain ⟨queue, stamp, unvisited⟩ := visit_spec visited
      split at ran
      · simp only [bind_eq_ok, check_eq_ok] at ran
        obtain ⟨next, _, ⟨_, rfl⟩, _, t', pushed, ran⟩ := ran
        obtain rfl := modify_eq_ok.1 pushed
        obtain ⟨stamp', grown, same⟩ := ih ran
        simp_all only [Buffers.unvisited, Array.size_push, if_true]
        exact ⟨trivial, by omega, by omega⟩
      · obtain ⟨stamp', grown, same⟩ := ih ran
        simp_all
    · exact ih ran

end Navigability.Reach
