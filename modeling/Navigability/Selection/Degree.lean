import Navigability.Graph.Basic
import Navigability.Selection.Basic
import Navigability.Storage

/-!
# Inner degrees

The inner degree of a member is the number of entries of its row that are members, repeated
entries counted each time. Points outside the selection have inner degree zero. Degrees are stored
in 32 bits, one for each point.

The degrees of all points are written into storage that may hold anything before. They are written
in ascending order of the members, so a failure leaves the degrees of the members before it, and
zero from there on.

## Main definitions

* `Selection.innerDegree graph point`: the inner degree of one point
* `Selection.writeDegrees graph`: the inner degrees of all points, into given storage
* `Selection.innerDegrees graph`: the inner degrees of all points
-/

namespace Navigability.Selection

variable {γ : Type} [Adjacency γ]

/-- How many entries of a row of `point` lead to members, added to a count so far. -/
def countAdmitted (selection : Selection) (point : Nat) :
    List Nat → Nat → Except Failure Nat
  | [], count => .ok count
  | neighbor :: row, count => do
    if ← selection.admits point neighbor then selection.countAdmitted point row (count + 1)
    else selection.countAdmitted point row count

/-- The inner degree of a point. -/
def innerDegree (selection : Selection) (graph : γ) (point : Nat) : Except Failure Nat :=
  if selection.isMember point then
    selection.countAdmitted point (Adjacency.row graph point) 0
  else .ok 0

/-- Write the degree of one point. -/
def storeDegree (point degree : Nat) : EStateM Failure (Array UInt32) Unit := fun degrees =>
  if h : point < degrees.size then .ok () (degrees.set point (UInt32.ofNat degree))
  else .error (.outOfStorage point degrees.size) degrees

/-- Write the degrees of the listed points. -/
def storeDegrees (selection : Selection) (graph : γ) :
    List Nat → EStateM Failure (Array UInt32) Unit
  | [] => pure ()
  | point :: points => do
    storeDegree point (← MonadExcept.ofExcept (selection.innerDegree graph point))
    selection.storeDegrees graph points

/-- Write the inner degrees of all points into storage, in place of what it holds. -/
def writeDegrees (selection : Selection) (graph : γ) : EStateM Failure (Array UInt32) Unit := do
  modify fun degrees => refill degrees selection.pointCount 0
  selection.storeDegrees graph selection.members

/-- The inner degrees of all points. -/
def innerDegrees (selection : Selection) (graph : γ) : Except Failure (Array UInt32) :=
  match selection.writeDegrees graph #[] with
  | .ok _ degrees => .ok degrees
  | .error failure _ => .error failure

end Navigability.Selection
