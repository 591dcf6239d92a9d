import Mathlib.Data.List.Forall2
import Navigability.Label.Table

/-!
# Label tables and their rows

What a table of rows says depends on the sets of labels in the rows only: a label may be repeated in
a row, and the labels of a row may stand in any order. Under every label the tally has the number of
rows that have it, so a label is in the tally when some row has it, and the tally of more rows is
the sum of the tallies.

## Main definitions

* `LabelTable.ordered row`: the labels of a row, each of them once
* `LabelTable.Same`: two tables with the same points, labels and tally
* `LabelTable.Mentions`: whether a label occurs anywhere in a table

## Main results

* `LabelTable.getElem?_tally_ofRows`: the tally counts the rows that have a label
* `LabelTable.mentions_ofRows_iff`: all labels of a table are from its rows
* `LabelTable.ofRows_same`: rows with the same labels make the same table
* `LabelTable.sets_ofRows_append`, `LabelTable.count_ofRows_append`: the table of more rows
-/

namespace Navigability.LabelTable

/-! ## The tally -/

/-- Count one more point under each of some labels. -/
def countLabels (tally : Std.TreeMap String Nat) (labels : List String) :
    Std.TreeMap String Nat :=
  labels.foldl (fun tally label => tally.alter label fun n => some (n.getD 0 + 1)) tally

theorem addToTally_eq (tally : Std.TreeMap String Nat) (set : LabelSet) :
    addToTally tally set = countLabels tally set.toList := rfl

theorem getElem?_countLabels {labels : List String} (nodup : labels.Nodup)
    (tally : Std.TreeMap String Nat) (label : String) :
    (countLabels tally labels)[label]? =
      if label ∈ labels then some (tally.getD label 0 + 1) else tally[label]? := by
  induction labels generalizing tally with
  | nil => simp [countLabels]
  | cons first labels ih =>
    obtain ⟨fresh, nodup⟩ := List.nodup_cons.1 nodup
    rw [countLabels, List.foldl_cons, ← countLabels, ih nodup, Std.TreeMap.getD_alter,
      Std.TreeMap.getElem?_alter]
    by_cases same : first = label
    · subst same
      simp [fresh, Std.TreeMap.getD_eq_getD_getElem?]
    · simp [same, Ne.symm same]

theorem getElem?_addToTally (tally : Std.TreeMap String Nat) (set : LabelSet) (label : String) :
    (addToTally tally set)[label]? =
      if label ∈ set then some (tally.getD label 0 + 1) else tally[label]? := by
  have distinct : set.toList.Nodup :=
    (Std.TreeSet.distinct_toList (t := set)).imp fun differ same => differ (by simp [same])
  rw [addToTally_eq, getElem?_countLabels distinct]
  simp only [Std.TreeSet.mem_toList]

/-- Counting row after row adds the number of rows that have a label. -/
theorem getElem?_foldl_addToTally (rows : List (List String)) (tally : Std.TreeMap String Nat)
    (label : String) :
    ((rows.map fun row => Std.TreeSet.ofList row).foldl addToTally tally)[label]? =
      if ∃ row ∈ rows, label ∈ row then some (tally.getD label 0 + rows.countP (label ∈ ·))
      else tally[label]? := by
  induction rows generalizing tally with
  | nil => simp
  | cons row rows ih =>
    have has : label ∈ (Std.TreeSet.ofList row : LabelSet) ↔ label ∈ row := by
      rw [Std.TreeSet.mem_ofList, List.contains_iff_mem]
    simp only [List.map_cons, List.foldl_cons, ih, Std.TreeMap.getD_eq_getD_getElem?,
      getElem?_addToTally, List.exists_mem_cons_iff, List.countP_cons, has]
    by_cases first : label ∈ row
    · by_cases later : ∃ row ∈ rows, label ∈ row
      · simp [first, later, Nat.add_assoc, Nat.add_comm 1]
      · have none : rows.countP (label ∈ ·) = 0 := by simpa using later
        simp [first, later, none]
    · simp [first]

/-- **The tally counts** the rows that have a label. -/
theorem getElem?_tally_ofRows (rows : List (List String)) (label : String) :
    (ofRows rows).tally[label]? =
      if ∃ row ∈ rows, label ∈ row then some (rows.countP (label ∈ ·)) else none := by
  rw [ofRows, getElem?_foldl_addToTally, Std.TreeMap.getD_emptyc, Nat.zero_add,
    Std.TreeMap.getElem?_emptyc]

theorem count_ofRows (rows : List (List String)) (label : String) :
    (ofRows rows).count label = rows.countP (label ∈ ·) := by
  rw [count, Std.TreeMap.getD_eq_getD_getElem?, getElem?_tally_ofRows]
  split
  · rfl
  · next absent =>
    have none : rows.countP (label ∈ ·) = 0 := by simpa using absent
    rw [none]
    rfl

theorem mem_tally_ofRows_iff {rows : List (List String)} {label : String} :
    label ∈ (ofRows rows).tally ↔ ∃ row ∈ rows, label ∈ row := by
  rw [Std.TreeMap.mem_iff_isSome_getElem?, getElem?_tally_ofRows]
  split <;> simp_all

/-! ## Tables with the same labels -/

/-- Two tables with the same points, labels and tally. -/
structure Same (first second : LabelTable) : Prop where
  pointCount : first.pointCount = second.pointCount
  labels : ∀ point, (first.labelsOf point).map (·.toList) = (second.labelsOf point).map (·.toList)
  tally : first.tally = second.tally

/-- The labels of a row, each of them once and in their order. -/
def ordered (row : List String) : List String := (Std.TreeSet.ofList row).toList

theorem ordered_congr {row row' : List String} (same : ∀ label, label ∈ row ↔ label ∈ row') :
    ordered row = ordered row' := by
  have equiv : (Std.TreeSet.ofList row : LabelSet).Equiv (Std.TreeSet.ofList row') := by
    rw [Std.TreeSet.equiv_iff_forall_mem_iff]
    intro label
    rw [Std.TreeSet.mem_ofList, Std.TreeSet.mem_ofList, List.contains_iff_mem,
      List.contains_iff_mem, same label]
  exact Std.TreeSet.equiv_iff_toList_eq.1 equiv

theorem map_labelsOf_ofRows (rows : List (List String)) (point : Nat) :
    ((ofRows rows).labelsOf point).map (·.toList) = (rows.map ordered)[point]? := by
  rw [labelsOf_ofRows, Option.map_map, List.getElem?_map]
  rfl

theorem tally_ofRows (rows : List (List String)) :
    (ofRows rows).tally = (rows.map ordered).foldl countLabels ∅ := by
  rw [ofRows, List.foldl_map, List.foldl_map]
  rfl

/-- **A label may be repeated** in a row, and the labels of a row may stand in any order. -/
theorem ofRows_same {rows rows' : List (List String)}
    (alike : List.Forall₂ (fun row row' => ∀ label, label ∈ row ↔ label ∈ row') rows rows') :
    (ofRows rows).Same (ofRows rows') := by
  have same : rows.map ordered = rows'.map ordered := by
    induction alike with
    | nil => rfl
    | cons first _ ih => rw [List.map_cons, List.map_cons, ordered_congr first, ih]
  constructor
  · rw [pointCount_ofRows, pointCount_ofRows, alike.length_eq]
  · intro point
    rw [map_labelsOf_ofRows, map_labelsOf_ofRows, same]
  · rw [tally_ofRows, tally_ofRows, same]

/-! ## The labels of a table -/

/-- Whether a label occurs anywhere in a table. -/
def Mentions (table : LabelTable) (label : String) : Prop :=
  (∃ set ∈ table.sets, label ∈ set) ∨ label ∈ table.tally

/-- **All labels of a table** are from its rows. -/
theorem mentions_ofRows_iff {rows : List (List String)} {label : String} :
    (ofRows rows).Mentions label ↔ ∃ row ∈ rows, label ∈ row := by
  have carried : (∃ set ∈ (ofRows rows).sets, label ∈ set) ↔ ∃ row ∈ rows, label ∈ row := by
    simp [ofRows, Std.TreeSet.mem_ofList]
  rw [Mentions, carried, mem_tally_ofRows_iff, or_self]

/-! ## Rows behind other rows -/

theorem sets_ofRows_append (rows rows' : List (List String)) :
    (ofRows (rows ++ rows')).sets = (ofRows rows).sets ++ (ofRows rows').sets := by
  simp [ofRows]

theorem count_ofRows_append (rows rows' : List (List String)) (label : String) :
    (ofRows (rows ++ rows')).count label =
      (ofRows rows).count label + (ofRows rows').count label := by
  rw [count_ofRows, count_ofRows, count_ofRows, List.countP_append]

end Navigability.LabelTable
