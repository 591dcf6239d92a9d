import Navigability.Component.Buffers
import Navigability.Event
import Navigability.Graph.Basic
import Navigability.Selection.Basic

/-!
# Turns of the component search

A depth-first search over the members of a selection numbers the points in the order in which it
enters them. The points on the way from the root to the current point form the path. The trail
holds every entered point whose component is not complete. For each point the search keeps the
least number of an open point it is known to reach. A point all of whose row is read and which
reaches no smaller number than its own is the root of a component: the points on the trail down to
it are the component. The state of a point remembers how far its row was read, so no call stack is
needed and a row is read on where it was left.

## Main definitions

* `Search`: the storage, and what the search has put out
* `enter`, `close`: what happens to a point when its row is begun and when it is read to the end
* `complete`: put out the component of a root
* `turn`: enter the next member along the row of the current point, or close the current point
-/

namespace Navigability.Component

/-- The storage of a search, the components it has completed, and its reports. -/
structure Search extends Buffers where
  components : Array (List Nat) := #[]
  reports : Array Event := #[]

/-! ## Access to the storage -/

/-- The state of a point. -/
def stateAt (point : Nat) : Attempt Search PointState := do
  Attempt.check (fetch (← get).points point)

/-- Put down the state of a point. -/
def setState (point : Nat) (state : PointState) : Attempt Search Unit := fun s =>
  if h : point < s.points.size then .ok () { s with points := s.points.set point state }
  else .error (.outOfStorage point s.points.size) s

/-- The next visit number. -/
def nextIndex : Attempt Search UInt32 := fun s =>
  if s.lastIndex + 1 = 0 then .error (.fault .counterLimit) s
  else .ok (s.lastIndex + 1) { s with lastIndex := s.lastIndex + 1 }

/-! ## The search -/

/-- Enter a point: give it a number and put it on the path and on the trail. -/
def enter (point parent : Nat) : Attempt Search Unit := do
  let index ← nextIndex
  let state ← stateAt point
  setState point { state with
    index, low := index, parent := UInt32.ofNat parent, position := 0, onTrail := true }
  modify fun s => { s with
    path := UInt32.ofNat point :: s.path
    trail := UInt32.ofNat point :: s.trail }

/-- Read the rest of a row up to the first member that is not visited. The position is that of the
next entry to read; the outcome has the member, if there is one, and the position behind it. -/
def findUnvisited (selection : Selection) (points : Array PointState) (point : Nat) :
    List Nat → Nat → Except Failure (Option Nat × Nat)
  | [], position => .ok (none, position)
  | neighbor :: row, position => do
    if ← selection.admits point neighbor then
      if (← fetch points neighbor).index = 0 then return (some neighbor, position + 1)
    findUnvisited selection points point row (position + 1)

/-- The least of a number and the visit numbers of the members in a row that are on the trail. -/
def lowest (selection : Selection) (points : Array PointState) :
    List Nat → UInt32 → Except Failure UInt32
  | [], low => .ok low
  | neighbor :: row, low => do
    if selection.isMember neighbor then
      let state ← fetch points neighbor
      if state.onTrail then return ← lowest selection points row (min low state.index)
    lowest selection points row low

/-- Take the points down to `root` off the trail, and collect those that are part of no component
yet. -/
def unwind (root : Nat) : List UInt32 → Array Nat → Attempt Search (Array Nat)
  | [], component => return component
  | top :: trail, component => do
    let point := top.toNat
    let state ← stateAt point
    setState point { state with onTrail := false, listed := true }
    modify fun s => { s with trail }
    let component := if state.listed then component else component.push point
    if point = root then return component else unwind root trail component

/-- Put out the component that `root` is the root of. -/
def complete (root : Nat) : Attempt Search Unit := do
  let component ← unwind root (← get).trail #[]
  let event :=
    if 1 < component.size then .componentClosed root component.size else .singletonClosed root
  modify fun s => { s with
    components := s.components.push component.toList
    reports := s.reports.push event }

/-- Lower what a point is known to reach. -/
def lower (point : Nat) (low : UInt32) : Attempt Search Unit := do
  let state ← stateAt point
  setState point { state with low := min state.low low }

/-- Close the point at the top of the path, all of whose row is read. Its parent reaches what it
reaches; a root is its own parent. -/
def close (selection : Selection) (point : Nat) (row : List Nat) : Attempt Search Unit := do
  let state ← stateAt point
  let low ← Attempt.check (lowest selection (← get).points row state.low)
  setState point { state with low }
  modify fun s => { s with path := s.path.tail }
  unless state.parent.toNat = point do lower state.parent.toNat low
  if low = state.index then complete point

/-- What a turn did. -/
inductive Turn where
  | finished
  | entered (point : Nat)
  | closed (point : Nat)
  deriving DecidableEq

/-- One turn at the top of the path: read its row on from where it was left, and enter the first
member that is not visited, or close the top if there is none. -/
def turn {γ : Type} [Adjacency γ] (selection : Selection) (graph : γ) : Attempt Search Turn := do
  match (← get).path with
  | [] => return .finished
  | top :: _ =>
    let point := top.toNat
    let row := Adjacency.row graph point
    let state ← stateAt point
    let start := state.position.toNat
    let (next, stop) ←
      Attempt.check (findUnvisited selection (← get).points point (row.drop start) start)
    setState point { state with position := UInt32.ofNat stop }
    match next with
    | some neighbor =>
      enter neighbor point
      return .entered neighbor
    | none =>
      close selection point row
      return .closed point

end Navigability.Component
