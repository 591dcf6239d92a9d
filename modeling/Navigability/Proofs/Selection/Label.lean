import Navigability.Inspector
import Navigability.Proofs.Label.Format
import Navigability.Proofs.Reach.EntryPoint

/-!
# The members of a label

A label is counted in three ways: the tally of the table is kept while the table is built, the flags
of a selection are set point by point, and the members of the selection are listed. All of them
count the points that carry the label. The tally counts all points of the table, though, and the
selection only those that the graph has; so it never counts more members than the tally, and an
inspector that sees two different counts can tell that the table goes beyond the graph.

## Main definitions

* `LabelTable.Made`: a table that was made of rows or read from a source
* `LabelTable.carriers`: the points that carry a label
* `Selection.Selects`: a selection whose members are the points with a property
* `Inspector.Warns`: the warning of an inspector about a label, and its silence

## Main results

* `LabelTable.Made.count_eq`, `LabelTable.Made.mem_tally_iff`: the tally counts the carriers
* `Selection.ofLabel_selects`: the members of a label are its carriers among the points
* `LabelTable.count_eq_add`: the tally counts the members and the carriers beyond the graph
* `label_counts_agree`: the counts of a label, and when an inspector warns
-/

namespace Navigability

namespace LabelTable

/-! ## The carriers of a label -/

/-- A table that was made of rows or read from a source. -/
inductive Made : LabelTable → Prop
  | built (rows : List (List String)) : Made (ofRows rows)
  | loaded {source : Text.ByteSource} {table : LabelTable} : read source = .ok table → Made table

/-- The points that carry a label, in ascending order. -/
def carriers (table : LabelTable) (label : String) : List Nat :=
  (List.range table.pointCount).filter fun point => table.carries point label

variable {table : LabelTable} {label : String} {point : Nat}

theorem Made.exists_rows (made : table.Made) : ∃ rows, ofRows rows = table := by
  cases made with
  | built rows => exact ⟨rows, rfl⟩
  | loaded ok =>
    obtain ⟨lines, -, same⟩ := read_eq_ok ok
    exact ⟨_, same⟩

theorem lt_of_carries (carries : table.carries point label) : point < table.pointCount := by
  rw [LabelTable.carries, labelsOf] at carries
  split at carries
  · next set found => exact (Array.getElem?_eq_some_iff.1 found).1
  · cases carries

theorem mem_carriers_iff : point ∈ table.carriers label ↔ table.carries point label := by
  rw [carriers, List.mem_filter, List.mem_range]
  exact and_iff_right_of_imp lt_of_carries

theorem ncard_carriers (table : LabelTable) (label : String) :
    {point | table.carries point label}.ncard = (table.carriers label).length :=
  Selection.ncard_eq_length (List.nodup_range.filter _) fun _ => mem_carriers_iff.symm

theorem finite_carriers (table : LabelTable) (label : String) :
    {point | table.carries point label}.Finite :=
  (Set.finite_lt_nat table.pointCount).subset fun _ => lt_of_carries

/-! ## The tally -/

/-- The rows with a label stand at the points that carry it. -/
theorem countP_rows (rows : List (List String)) (label : String) :
    rows.countP (label ∈ ·) = ((ofRows rows).carriers label).length := by
  have along : (List.range rows.length).map (fun point => rows.getD point []) = rows := by
    apply List.ext_getElem
    · simp
    · intro point _ inside
      simp [inside]
  calc rows.countP (label ∈ ·)
      = (List.range rows.length).countP fun point => label ∈ rows.getD point [] := by
        conv_lhs => rw [← along]
        rw [List.countP_map]
        rfl
    _ = ((ofRows rows).carriers label).length := by
        rw [carriers, ← List.countP_eq_length_filter, pointCount_ofRows]
        simp only [carries_ofRows, List.contains_eq_mem]

namespace Made

variable (made : table.Made)

include made

/-- **The tally counts** the points that carry a label. -/
theorem count_eq (label : String) :
    table.count label = {point | table.carries point label}.ncard := by
  obtain ⟨rows, rfl⟩ := made.exists_rows
  rw [count_ofRows, countP_rows, ncard_carriers]

theorem mem_tally_iff : label ∈ table.tally ↔ ∃ point, table.carries point label := by
  obtain ⟨rows, rfl⟩ := made.exists_rows
  rw [mem_tally_ofRows_iff]
  simp only [← mem_carriers_iff]
  rw [← List.length_pos_iff_exists_mem, ← countP_rows, List.countP_pos_iff]
  simp

end Made

end LabelTable

/-! ## The members of a label -/

namespace Selection

/-- A selection whose members are the points with a property, each of them listed once and in
ascending order, and counted. -/
structure Selects (selection : Selection) (property : Nat → Prop) : Prop where
  isMember_iff : ∀ point, selection.isMember point ↔ property point
  mem_members_iff : ∀ point, point ∈ selection.members ↔ property point
  ascending : selection.members.Pairwise (· < ·)
  memberCount_eq : selection.memberCount = selection.members.length

variable {table : LabelTable} {label : String} {point n : Nat}

theorem isMember_ofLabel_iff : (ofLabel table label n).isMember point ↔
    point < n ∧ label ≠ "" ∧ table.carries point label := by
  rw [isMember, ofLabel]
  by_cases named : label = ""
  · have clear : (Array.replicate n false).getD point false = false := by
      rw [Array.getD_eq_getD_getElem?, Array.getElem?_replicate]
      split <;> rfl
    simp [named, clear]
  · by_cases inside : point < n <;> simp [named, inside]

/-- **The members of a label** are the points that carry it, among those there are. -/
theorem ofLabel_selects (table : LabelTable) (label : String) (n : Nat) :
    (ofLabel table label n).Selects fun point =>
      point < n ∧ label ≠ "" ∧ table.carries point label where
  isMember_iff _ := isMember_ofLabel_iff
  mem_members_iff _ := Selection.mem_members_iff.trans isMember_ofLabel_iff
  ascending := members_ascending _
  memberCount_eq := (length_members _).symm

theorem ncard_members (selection : Selection) :
    {point | selection.isMember point}.ncard = selection.memberCount := by
  rw [← length_members]
  exact ncard_eq_length selection.members_nodup fun _ => Selection.mem_members_iff.symm

end Selection

open Selection

namespace LabelTable

variable {table : LabelTable} {label : String}

/-- The tally counts the members of a label, and the points that carry it beyond the graph. -/
theorem Made.count_eq_add (made : table.Made) (named : label ≠ "") (n : Nat) :
    table.count label = (Selection.ofLabel table label n).memberCount +
      {point | n ≤ point ∧ table.carries point label}.ncard := by
  have inside : {point | table.carries point label} ∩ {point | point < n} =
      {point | (Selection.ofLabel table label n).isMember point} := by
    ext point
    simp [isMember_ofLabel_iff, named, and_comm]
  have beyond : {point | table.carries point label} \ {point | point < n} =
      {point | n ≤ point ∧ table.carries point label} := by
    ext point
    simp [and_comm]
  rw [made.count_eq, ← ncard_members, ← inside, ← beyond,
    Set.ncard_inter_add_ncard_sdiff_eq_ncard _ _ (finite_carriers table label)]

end LabelTable

/-! ## The warning -/

namespace Inspector

variable {γ : Type} [Adjacency γ]

/-- Whether a point that the graph does not have carries a label. -/
def Beyond (inspector : Inspector γ) (label : String) (point : Nat) : Prop :=
  Adjacency.pointCount inspector.graph ≤ point ∧ inspector.labels.carries point label

/-- The warning of an inspector about a label: it is given if points that the graph does not have
carry the label, and then the count of the table exceeds that of the members by their number. -/
structure Warns (inspector : Inspector γ) (label : String) : Prop where
  warning_iff : inspector.selectionReports label =
    [.labelBeyondGraph label
      ((inspector.select label).memberCount + {point | inspector.Beyond label point}.ncard)
      (inspector.select label).memberCount] ↔
    label ≠ "" ∧ ∃ point, inspector.Beyond label point
  silent_iff : inspector.selectionReports label = [] ↔
    ¬ (label ≠ "" ∧ ∃ point, inspector.Beyond label point)

variable {inspector : Inspector γ} {label : String}

theorem ncard_beyond_ne_zero_iff : {point | inspector.Beyond label point}.ncard ≠ 0 ↔
    ∃ point, inspector.Beyond label point := by
  have finite : {point | inspector.Beyond label point}.Finite :=
    (inspector.labels.finite_carriers label).subset fun _ => And.right
  rw [← Nat.pos_iff_ne_zero, Set.ncard_pos finite]
  rfl

/-- **An inspector warns** just when the table goes beyond the graph, and it says how far. -/
theorem warns (made : inspector.labels.Made) : inspector.Warns label := by
  by_cases named : label = ""
  · constructor <;> simp [selectionReports, named]
  · have count : inspector.labels.count label = (inspector.select label).memberCount +
        {point | inspector.Beyond label point}.ncard := made.count_eq_add named _
    constructor <;> rw [← ncard_beyond_ne_zero_iff] <;> simp [selectionReports, named, count]

end Inspector

/-- **The counts of a label agree.** In a table that was made of rows or read from a source, the
tally of a label is the number of points that carry it, which are those whose rows have it, and just
the labels that are carried have a tally. Among `n` points the members of a label are those that
carry it, unless it is the empty label, and they are listed in ascending order and counted. An
inspector warns about a label just when it is not empty and carried beyond the graph, and then the
tally exceeds the member count by the number of points that carry it there. -/
theorem label_counts_agree {γ : Type} [Adjacency γ] {table : LabelTable} (made : table.Made)
    (label : String) :
    table.count label = {point | table.carries point label}.ncard ∧
    (∀ rows, LabelTable.ofRows rows = table →
      ∀ point, table.carries point label ↔ label ∈ rows.getD point []) ∧
    (label ∈ table.tally ↔ ∃ point, table.carries point label) ∧
    (∀ n, (ofLabel table label n).Selects fun point =>
      point < n ∧ label ≠ "" ∧ table.carries point label) ∧
    ∀ inspector : Inspector γ, inspector.labels = table → inspector.Warns label := by
  refine ⟨made.count_eq label, ?_, made.mem_tally_iff, ofLabel_selects table label, ?_⟩
  · rintro rows rfl point
    rw [LabelTable.carries_ofRows, List.contains_iff_mem]
  · rintro inspector rfl
    exact Inspector.warns made

/-- The labels of four points, for a graph of two. -/
def fourPoints : LabelTable := .ofRows [["a", "", "a"], ["b"], ["a"], ["", "a"]]

def overlong : Inspector RowGraph := { graph := .ofRows [[1], [0]], labels := fourPoints }

theorem counts_fourPoints :
    fourPoints.Made ∧ {point | fourPoints.carries point "a"}.ncard = 3 ∧
    (∀ point, point ∈ (ofLabel fourPoints "a" 2).members ↔
      point < 2 ∧ "a" ≠ "" ∧ fourPoints.carries point "a") ∧
    {point | overlong.Beyond "a" point}.ncard = 2 ∧ overlong.selectionReports "" = [] := by
  have made : fourPoints.Made := .built _
  obtain ⟨count, -, -, selects, warns⟩ := label_counts_agree (γ := RowGraph) made "a"
  have tally : fourPoints.count "a" = 3 := by decide +kernel
  have reported : overlong.selectionReports "a" = [.labelBeyondGraph "a" 3 1] := by decide +kernel
  have beyond : overlong.Beyond "a" 2 := by
    constructor <;> decide +kernel
  have warning := (warns overlong rfl).warning_iff.2 ⟨by decide, 2, beyond⟩
  have silent := (label_counts_agree (γ := RowGraph) made "").2.2.2.2 overlong rfl
  rw [reported] at warning
  simp only [List.cons.injEq, Event.labelBeyondGraph.injEq, and_true, true_and] at warning
  refine ⟨made, count.symm.trans tally, (selects 2).mem_members_iff, by omega, ?_⟩
  exact silent.silent_iff.2 (by simp)

end Navigability
