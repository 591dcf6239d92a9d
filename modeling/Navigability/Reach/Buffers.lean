import Navigability.Attempt
import Navigability.Selection.Degree
import Navigability.Storage

/-!
# Storage of traversals

A traversal marks the points it visits with its own number, its stamp, so that the next traversal
starts with no point marked and without touching the marks. Only when the stamps are used up are
all marks erased and the stamps counted anew. Beside its stamp each mark says whether any
traversal of the current measurement has reached the point.

The storage is reused. Sizing it for a number of points erases all marks; the degrees are written
by each measurement.

## Main definitions

* `Buffers`: the storage
* `Buffers.reset n`: erase the marks and size the storage for `n` points
* `restart`: start a traversal with no point visited
* `visit`: mark a point, and tell whether it was not visited before
* `enqueue`: put a point and its level at the end of the queue

## Main results

* `Buffers.reset_of_lt`: what storage holds that was reset
-/

namespace Navigability.Reach

/-- What is kept for each point. -/
structure Mark where
  /-- The stamp of the last traversal that visited the point. -/
  stamp : UInt32 := 0
  /-- Whether the measurement counted the point as reached. -/
  counted : Bool := false
  deriving DecidableEq

/-- An entry of the queue: a visited point and its distance from the start. -/
structure Visit where
  point : UInt32
  level : UInt32
  deriving DecidableEq

/-- The storage of traversals. -/
structure Buffers where
  marks : Array Mark := #[]
  /-- The stamp of the current traversal. -/
  stamp : UInt32 := 0
  /-- The points the current traversal has visited, in order. -/
  queue : Array Visit := #[]
  /-- The inner degrees of the current measurement. -/
  degrees : Array UInt32 := #[]
  deriving DecidableEq

namespace Buffers

/-- The number of points the storage is sized for. -/
def capacity (buffers : Buffers) : Nat := buffers.marks.size

/-- Erase the marks and size the storage for `n` points. -/
def reset (n : Nat) : Attempt Buffers Unit := fun buffers =>
  if pointLimit ≤ n then .error (.tooManyPoints n) buffers
  else .ok () { buffers with marks := refill buffers.marks n {}, stamp := 0, queue := #[] }

theorem reset_of_lt {n : Nat} (h : n < pointLimit) (buffers : Buffers) :
    reset n buffers =
      .ok () { marks := Array.replicate n {}, degrees := buffers.degrees } := by
  simp [reset, Nat.not_le.2 h]

/-- Write the inner degrees of a selection. -/
def writeDegrees {γ : Type} [Adjacency γ] (selection : Selection) (graph : γ) :
    Attempt Buffers Unit := fun ⟨marks, stamp, queue, degrees⟩ =>
  match selection.writeDegrees graph degrees with
  | .ok () degrees => .ok () ⟨marks, stamp, queue, degrees⟩
  | .error failure degrees => .error failure ⟨marks, stamp, queue, degrees⟩

end Buffers

/-- Start a traversal: take the next stamp, and empty the queue. -/
def restart : Attempt Buffers Unit :=
  modify fun buffers =>
    if buffers.stamp + 1 = 0 then
      { buffers with
        marks := buffers.marks.map fun mark => { mark with stamp := 0 }
        stamp := 1
        queue := #[] }
    else { buffers with stamp := buffers.stamp + 1, queue := #[] }

/-- Mark a point as visited, and tell whether it was not. -/
def visit (point : Nat) : Attempt Buffers Bool := fun buffers =>
  if h : point < buffers.marks.size then
    if buffers.marks[point].stamp = buffers.stamp then .ok false buffers
    else .ok true { buffers with
      marks := buffers.marks.set point { buffers.marks[point] with stamp := buffers.stamp } }
  else .error (.outOfStorage point buffers.marks.size) buffers

/-- Put a point at the end of the queue. -/
def enqueue (point : Nat) (level : UInt32) : Attempt Buffers Unit :=
  modify fun buffers =>
    { buffers with queue := buffers.queue.push { point := UInt32.ofNat point, level } }

/-- The level behind a level. -/
def nextLevel (level : UInt32) : Except Failure UInt32 :=
  if level + 1 = 0 then .error (.fault .counterLimit) else .ok (level + 1)

/-- Count a point as reached, and tell whether it was not. -/
def cover (point : Nat) : Attempt Buffers Bool := fun buffers =>
  if h : point < buffers.marks.size then
    if buffers.marks[point].counted then .ok false buffers
    else .ok true { buffers with
      marks := buffers.marks.set point { buffers.marks[point] with counted := true } }
  else .error (.outOfStorage point buffers.marks.size) buffers

end Navigability.Reach
