import Navigability.Failure
import Navigability.Text.Fields
import Navigability.Text.Lines
import Navigability.Text.WhiteSpace
import Std.Data.TreeMap
import Std.Data.TreeSet

/-!
# Label tables

A label table lists which labels each point carries, by position: row `p` is the label set of
point `p`. Beside the rows it keeps a tally of how many points carry each label. A label repeated
in one row is carried once.

In its text form a table has one line per point, with the point's labels between commas. White
space around a label is no part of it and blank fields are no labels, so a blank line is a point
without labels. A table built from rows keeps every label as it is given, the empty one included.

## Main definitions

* `LabelTable.ofRows rows`: the table of a list of label lists
* `LabelTable.read source`: the table of a text
* `LabelTable.carries`, `LabelTable.count`: the two questions an analysis asks

## Main results

* `LabelTable.pointCount_ofRows`, `LabelTable.labelsOf_ofRows`: row `p` becomes point `p`
-/

namespace Navigability

open Text

/-- The labels of one point. -/
abbrev LabelSet := Std.TreeSet String

/-- The label sets of the points, and the number of points that carry each label. -/
structure LabelTable where
  sets : Array LabelSet
  tally : Std.TreeMap String Nat

namespace LabelTable

/-- Count one more point under each of its labels. -/
def addToTally (tally : Std.TreeMap String Nat) (set : LabelSet) : Std.TreeMap String Nat :=
  set.toList.foldl (fun tally label => tally.alter label fun n => some (n.getD 0 + 1)) tally

/-- The table whose point `p` carries the labels of the `p`-th row. -/
def ofRows (rows : List (List String)) : LabelTable :=
  let sets := rows.map fun row => Std.TreeSet.ofList row
  { sets := sets.toArray, tally := sets.foldl addToTally ∅ }

/-- How many points the table covers. -/
def pointCount (table : LabelTable) : Nat := table.sets.size

/-- The labels of a point, if the table covers it. -/
def labelsOf (table : LabelTable) (point : Nat) : Option LabelSet := table.sets[point]?

/-- Whether a point carries a label; a point the table does not cover carries none. -/
def carries (table : LabelTable) (point : Nat) (label : String) : Bool :=
  match table.labelsOf point with
  | some set => set.contains label
  | none => false

/-- How many points carry a label, by the tally. -/
def count (table : LabelTable) (label : String) : Nat := table.tally.getD label 0

@[simp] theorem pointCount_ofRows (rows : List (List String)) :
    (ofRows rows).pointCount = rows.length := by
  simp [ofRows, pointCount]

theorem labelsOf_ofRows (rows : List (List String)) (point : Nat) :
    (ofRows rows).labelsOf point = rows[point]?.map fun row => Std.TreeSet.ofList row := by
  simp [ofRows, labelsOf]

theorem carries_ofRows (rows : List (List String)) (point : Nat) (label : String) :
    (ofRows rows).carries point label = (rows.getD point []).contains label := by
  simp only [carries, labelsOf_ofRows, List.getD_eq_getElem?_getD]
  cases rows[point]? <;> simp [Std.TreeSet.contains_ofList]

/-- The labels on a line of the text form. -/
def rowOfLine (line : List Char) : List String :=
  (((fields ',' line).map trim).filter fun label => !label.isEmpty).map String.ofList

/-- The table of a text. -/
def read (source : ByteSource) : Except Failure LabelTable :=
  match source.lines with
  | .ok lines => .ok (ofRows (lines.map rowOfLine))
  | .error cause => .error (.unreadable cause)

end LabelTable

end Navigability
