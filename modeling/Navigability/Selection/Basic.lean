import Navigability.Failure
import Navigability.Label.Table

/-!
# Selections

A selection is the part of a graph that a label singles out: a flag for each point that says
whether the point is a member. The analyses walk from members to members along the rows of a
graph. The graph may have more points or fewer than the selection; a step to a number that the
selection has no flag for is a failure.

## Main definitions

* `Selection.ofLabel`: the points that carry a label
* `Selection.isMember`, `Selection.members`, `Selection.memberCount`: the members
* `Selection.admits`: whether a step leads to a member

## Main results

* `Selection.mem_members_iff`: the members are the points whose flag is set
* `Selection.length_members`: the member count is their number
-/

namespace Navigability

/-- A label and, for each point, whether it carries the label. -/
structure Selection where
  label : String
  flags : Array Bool

namespace Selection

/-- The selection of a label among `n` points. The empty label selects no point, and a point the
table does not cover is not selected. -/
def ofLabel (table : LabelTable) (label : String) (n : Nat) : Selection where
  label := label
  flags :=
    if label.isEmpty then Array.replicate n false
    else Array.ofFn fun point : Fin n => table.carries point label

/-- How many points the selection decides about. -/
def pointCount (selection : Selection) : Nat := selection.flags.size

/-- Whether a number is a selected point. -/
def isMember (selection : Selection) (point : Nat) : Bool := selection.flags.getD point false

/-- The selected points, in ascending order. -/
def members (selection : Selection) : List Nat :=
  (List.range selection.pointCount).filter selection.isMember

/-- How many points are selected. -/
def memberCount (selection : Selection) : Nat := selection.flags.count true

/-- Whether the step from `point` to `neighbor` leads to a member. It fails when `neighbor` is no
point of the selection; `point` only tells where the step came from. -/
def admits (selection : Selection) (point neighbor : Nat) : Except Failure Bool :=
  if h : neighbor < selection.flags.size then .ok selection.flags[neighbor]
  else .error (.neighborOutOfRange point neighbor selection.pointCount)

@[simp] theorem pointCount_ofLabel (table : LabelTable) (label : String) (n : Nat) :
    (ofLabel table label n).pointCount = n := by
  rw [pointCount, ofLabel]
  split <;> simp

theorem isMember_of_lt {selection : Selection} {point : Nat} (h : point < selection.flags.size) :
    selection.isMember point = selection.flags[point] := by
  simp [isMember, h]

theorem lt_of_isMember {selection : Selection} {point : Nat} (h : selection.isMember point) :
    point < selection.pointCount := by
  simp only [isMember, Array.getD_eq_getD_getElem?] at h
  by_cases hp : point < selection.flags.size
  · exact hp
  · simp [hp] at h

@[simp] theorem mem_members_iff {selection : Selection} {point : Nat} :
    point ∈ selection.members ↔ selection.isMember point := by
  simp only [members, List.mem_filter, List.mem_range]
  exact ⟨And.right, fun h => ⟨lt_of_isMember h, h⟩⟩

theorem members_ascending (selection : Selection) : selection.members.Pairwise (· < ·) :=
  List.pairwise_lt_range.filter _

theorem members_nodup (selection : Selection) : selection.members.Nodup :=
  List.nodup_range.filter _

theorem length_members (selection : Selection) :
    selection.members.length = selection.memberCount := by
  have flags : (List.range selection.pointCount).map selection.isMember =
      selection.flags.toList := by
    apply List.ext_getElem
    · simp [pointCount]
    · intro i h _
      replace h : i < selection.flags.size := by simpa [pointCount] using h
      simpa using isMember_of_lt h
  rw [members, ← List.countP_eq_length_filter, memberCount, ← Array.count_toList, ← flags,
    List.count, List.countP_map]
  congr 1
  funext point
  simp

theorem memberCount_le (selection : Selection) : selection.memberCount ≤ selection.pointCount :=
  Array.count_le_size

theorem admits_of_lt {selection : Selection} {neighbor : Nat} (point : Nat)
    (h : neighbor < selection.pointCount) :
    selection.admits point neighbor = .ok (selection.isMember neighbor) := by
  replace h : neighbor < selection.flags.size := h
  simp [admits, isMember_of_lt h, h]

theorem admits_of_le {selection : Selection} {neighbor : Nat} (point : Nat)
    (h : selection.pointCount ≤ neighbor) :
    selection.admits point neighbor =
      .error (.neighborOutOfRange point neighbor selection.pointCount) := by
  replace h : selection.flags.size ≤ neighbor := h
  simp [admits, Nat.not_lt.2 h]

end Selection

end Navigability
