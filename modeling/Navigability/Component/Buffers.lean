import Navigability.Attempt
import Navigability.Storage

/-!
# Storage of the component search

The component search keeps one state for each point and two lists of points beside the points. All
of it is reused: a run empties the storage it finds, whatever an earlier run on a graph of any size
left there, also when that run failed.

Numbers are stored in 32 bits. Visit numbers start at one, and zero marks a point that was not
visited.

## Main definitions

* `PointState`: what the search keeps for each point
* `Buffers`: the storage
* `Buffers.blank n`: storage that no run has used
* `Buffers.reset n`: empty the storage and size it for `n` points

## Main results

* `Buffers.reset_of_lt`: storage that was reset is as good as blank
-/

namespace Navigability.Component

/-- What the search keeps for a point. -/
structure PointState where
  /-- The visit number. -/
  index : UInt32 := 0
  /-- The least visit number of an open point that the point is known to reach. -/
  low : UInt32 := 0
  /-- The point it was entered from; a root was entered from itself. -/
  parent : UInt32 := 0
  /-- The position in its row to go on from. -/
  position : UInt32 := 0
  /-- Whether it was visited and its component is still open. -/
  onTrail : Bool := false
  /-- Whether it is part of a complete component. -/
  listed : Bool := false
  deriving DecidableEq

/-- The storage of the component search. The path holds the points whose rows are being read, and
the trail the visited points whose component is still open, both with the latest first. -/
structure Buffers where
  points : Array PointState := #[]
  path : List UInt32 := []
  trail : List UInt32 := []
  lastIndex : UInt32 := 0
  deriving DecidableEq

namespace Buffers

/-- The number of points the storage is sized for. -/
def capacity (buffers : Buffers) : Nat := buffers.points.size

/-- Storage for `n` points that no run has used. -/
def blank (n : Nat) : Buffers := { points := Array.replicate n {} }

/-- Empty the storage and size it for `n` points. -/
def reset (n : Nat) : Attempt Buffers Unit := fun buffers =>
  if pointLimit ≤ n then .error (.tooManyPoints n) buffers
  else .ok () { points := refill buffers.points n {}, path := [], trail := [], lastIndex := 0 }

theorem reset_of_lt {n : Nat} (h : n < pointLimit) (buffers : Buffers) :
    reset n buffers = .ok () (blank n) := by
  simp [reset, Nat.not_le.2 h, blank]

end Buffers

end Navigability.Component
