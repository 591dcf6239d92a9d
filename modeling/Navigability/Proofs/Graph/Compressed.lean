import Mathlib.Algebra.BigOperators.Group.List.Lemmas
import Mathlib.Algebra.GroupWithZero.Nat
import Mathlib.Data.List.Induction
import Navigability.Graph.Compressed

/-!
# The rows of compressed graphs

Rows are added one at a time: the targets grow by the row, and one more offset says where it ends.
So the targets are all rows behind one another, and an offset is the number of targets that stand
before a row. What lies between two offsets in succession is then one of the rows again. Rows can be
read back in this way, so two graphs of given rows are equal only if their rows are. The graph
without offsets answers like the graph of no rows, but it is not made of any rows.

## Main definitions

* `Adjacency.Alike`: two graphs that answer every question alike
* `CompressedGraph.Bounded`: whether the offsets ascend and stay inside the targets

## Main results

* `CompressedGraph.targets_ofRows`, `CompressedGraph.getElem?_offsets_ofRows`: the two arrays
* `CompressedGraph.row_ofRows`: the rows of a compressed graph are the given ones
* `CompressedGraph.row_ofGraph`: compressing a graph keeps the rows of its points
* `CompressedGraph.rows_ofRows`: rows can be read back, so different rows make different graphs
* `CompressedGraph.compressed_faithful`: the answers of compressed graphs, and when they are equal
-/

namespace Navigability

/-- Two graphs, of any layouts, that answer every question alike. -/
structure Adjacency.Alike {γ δ : Type} [Adjacency γ] [Adjacency δ] (graph : γ) (other : δ) :
    Prop where
  pointCount : pointCount graph = pointCount other
  row : ∀ point, row graph point = row other point

theorem Adjacency.rows_eq_rows_iff {γ δ : Type} [Adjacency γ] [Adjacency δ] {graph : γ}
    {other : δ} : rows graph = rows other ↔
      pointCount graph = pointCount other ∧
        ∀ point < pointCount graph, row graph point = row other point := by
  constructor
  · intro same
    have size : pointCount graph = pointCount other := by
      simpa [rows] using congrArg List.length same
    refine ⟨size, fun point inside => ?_⟩
    rw [rows, rows, ← size, List.map_inj_left] at same
    exact same point (List.mem_range.2 inside)
  · rintro ⟨size, same⟩
    rw [rows, rows, ← size, List.map_inj_left]
    exact fun point mem => same point (List.mem_range.1 mem)

namespace CompressedGraph

/-! ## The arrays -/

theorem ofRows_concat (rows : List (List Nat)) (row : List Nat) :
    ofRows (rows ++ [row]) = (ofRows rows).addRow row := by
  simp [ofRows]

/-- **The targets** are the rows behind one another. -/
@[simp] theorem targets_ofRows (rows : List (List Nat)) :
    (ofRows rows).targets.toList = rows.flatten := by
  induction rows using List.reverseRecOn with
  | nil => rfl
  | append_singleton rows row ih => simp [ofRows_concat, addRow, ih]

/-- How many neighbors all rows have together. -/
theorem edgeCount_ofRows (rows : List (List Nat)) :
    (ofRows rows).edgeCount = (rows.map List.length).sum := by
  rw [edgeCount, ← Array.length_toList, targets_ofRows, List.length_flatten]

@[simp] theorem size_offsets_ofRows (rows : List (List Nat)) :
    (ofRows rows).offsets.size = rows.length + 1 := by
  induction rows using List.reverseRecOn with
  | nil => rfl
  | append_singleton rows row ih => simp [ofRows_concat, addRow, ih]

/-- **An offset** is the number of targets before a row. -/
theorem getElem?_offsets_ofRows (rows : List (List Nat)) {i : Nat} (h : i ≤ rows.length) :
    (ofRows rows).offsets[i]? = some ((rows.map List.length).take i).sum := by
  induction rows using List.reverseRecOn with
  | nil =>
    obtain rfl := Nat.le_zero.1 h
    rfl
  | append_singleton rows row ih =>
    rw [ofRows_concat, addRow, Array.getElem?_push, size_offsets_ofRows]
    by_cases last : i = rows.length + 1
    · have size := edgeCount_ofRows (rows ++ [row])
      rw [ofRows_concat, addRow, edgeCount] at size
      rw [if_pos last, last, List.take_of_length_le (by simp)]
      exact congrArg some size
    · have earlier : i ≤ rows.length := by
        rw [List.length_append, List.length_singleton] at h
        omega
      rw [if_neg last, ih earlier, List.map_append, List.take_append_of_le_length (by simpa)]

/-- Whether the offsets ascend and stay inside the targets, so that every row can be cut out. -/
def Bounded (graph : CompressedGraph) : Prop :=
  ∀ point start stop, graph.offsets[point]? = some start →
    graph.offsets[point + 1]? = some stop → start ≤ stop ∧ stop ≤ graph.targets.size

theorem bounded_ofRows (rows : List (List Nat)) : (ofRows rows).Bounded := by
  intro point start stop first second
  obtain ⟨inside, -⟩ := Array.getElem?_eq_some_iff.1 second
  rw [size_offsets_ofRows] at inside
  rw [getElem?_offsets_ofRows rows (by omega), Option.some_inj] at first second
  subst first second
  constructor
  · rw [List.sum_take_succ _ _ (by simpa using Nat.lt_of_succ_lt_succ inside)]
    exact Nat.le_add_right ..
  · rw [← edgeCount, edgeCount_ofRows,
      ← List.sum_take_add_sum_drop (rows.map List.length) (point + 1)]
    exact Nat.le_add_right ..

/-! ## The answers -/

@[simp] theorem pointCount_ofRows (rows : List (List Nat)) :
    Adjacency.pointCount (ofRows rows) = rows.length := by
  simp [Adjacency.pointCount]

/-- **The rows** of a compressed graph are the given ones. -/
@[simp] theorem row_ofRows (rows : List (List Nat)) (point : Nat) :
    Adjacency.row (ofRows rows) point = rows.getD point [] := by
  rcases Nat.lt_or_ge point rows.length with inside | outside
  · have start := getElem?_offsets_ofRows rows (Nat.le_of_lt inside)
    have stop := getElem?_offsets_ofRows rows (Nat.succ_le_of_lt inside)
    simp only [Adjacency.row, start, stop]
    rw [Array.toList_extract, targets_ofRows, List.extract_eq_take_drop, ← List.drop_take,
      List.drop_take_succ_flatten_eq_getElem rows point inside]
    simp [inside]
  · have stop : (ofRows rows).offsets[point + 1]? = none :=
      Array.getElem?_eq_none (by rw [size_offsets_ofRows]; omega)
    simp only [Adjacency.row, stop]
    simp [outside]

/-! ## Other layouts -/

section OfGraph

variable {γ : Type} [Adjacency γ] (graph : γ) {point : Nat}

@[simp] theorem pointCount_ofGraph :
    Adjacency.pointCount (ofGraph graph) = Adjacency.pointCount graph := by
  simp [ofGraph_eq, Adjacency.rows]

theorem edgeCount_ofGraph :
    (ofGraph graph).edgeCount =
      ((List.range (Adjacency.pointCount graph)).map (Adjacency.outDegree graph)).sum := by
  rw [ofGraph_eq, edgeCount_ofRows, Adjacency.rows, List.map_map]
  rfl

/-- **Compressing a graph** keeps the rows of its points. -/
theorem row_ofGraph (h : point < Adjacency.pointCount graph) :
    Adjacency.row (ofGraph graph) point = Adjacency.row graph point := by
  simp [ofGraph_eq, Adjacency.rows, h, List.getD_eq_getElem?_getD]

/-- A number that is no point has the empty row, whatever the graph answers for it. -/
theorem row_ofGraph_of_le (h : Adjacency.pointCount graph ≤ point) :
    Adjacency.row (ofGraph graph) point = [] := by
  simp [ofGraph_eq, Adjacency.rows, h, List.getD_eq_getElem?_getD]

end OfGraph

/-! ## Equal graphs -/

/-- **Rows can be read back** from a compressed graph. -/
@[simp] theorem rows_ofRows (rows : List (List Nat)) : Adjacency.rows (ofRows rows) = rows := by
  apply List.ext_getElem
  · simp [Adjacency.rows]
  · intro point _ inside
    simp [Adjacency.rows, inside]

theorem ofRows_inj {rows rows' : List (List Nat)} : ofRows rows = ofRows rows' ↔ rows = rows' := by
  constructor
  · intro same
    rw [← rows_ofRows rows, same, rows_ofRows]
  · exact congrArg ofRows

theorem ofGraph_rowGraph (rows : List (List Nat)) :
    ofGraph (RowGraph.ofRows rows) = ofRows rows := by
  have same : Adjacency.rows (RowGraph.ofRows rows) = Adjacency.rows (ofRows rows) :=
    Adjacency.rows_eq_rows_iff.2 ⟨by simp, fun point _ => by simp⟩
  rw [ofGraph_eq, same, rows_ofRows]

theorem ofGraph_eq_ofGraph_iff {γ δ : Type} [Adjacency γ] [Adjacency δ] {graph : γ} {other : δ} :
    ofGraph graph = ofGraph other ↔ Adjacency.pointCount graph = Adjacency.pointCount other ∧
      ∀ point < Adjacency.pointCount graph,
        Adjacency.row graph point = Adjacency.row other point := by
  rw [ofGraph_eq, ofGraph_eq, ofRows_inj, Adjacency.rows_eq_rows_iff]

/-- No graph of rows is without offsets: there is one in front of the first row. -/
theorem blank_ne_ofRows (rows : List (List Nat)) : blank ≠ ofRows rows := by
  intro same
  have offsets := size_offsets_ofRows rows
  rw [← same] at offsets
  cases offsets

theorem blank_alike : Adjacency.Alike blank noRows where
  pointCount := rfl
  row point := by simp [Adjacency.row, blank, noRows]

/-- **Compressed graphs** of rows are the same whichever way they are made, and answer as the rows
do; the graph made from another layout answers for its points as that layout does. Two of them are
equal if the rows are. The graph without offsets answers every question as the graph of no rows
does, and is none of them. -/
theorem compressed_faithful {γ δ : Type} [Adjacency γ] [Adjacency δ] :
    (∀ rows : List (List Nat), ofGraph (RowGraph.ofRows rows) = ofRows rows ∧
      (ofRows rows).Bounded ∧ Adjacency.pointCount (ofRows rows) = rows.length ∧
      (ofRows rows).edgeCount = (rows.map List.length).sum ∧
      (∀ point, Adjacency.row (ofRows rows) point = rows.getD point []) ∧
      Adjacency.Alike (ofRows rows) (RowGraph.ofRows rows)) ∧
    (∀ graph : γ, (ofGraph graph).Bounded ∧
      Adjacency.pointCount (ofGraph graph) = Adjacency.pointCount graph ∧
      ∀ point < Adjacency.pointCount graph,
        Adjacency.row (ofGraph graph) point = Adjacency.row graph point) ∧
    (∀ rows rows' : List (List Nat), ofRows rows = ofRows rows' ↔ rows = rows') ∧
    (∀ (graph : γ) (other : δ), ofGraph graph = ofGraph other ↔
      Adjacency.pointCount graph = Adjacency.pointCount other ∧
        ∀ point < Adjacency.pointCount graph,
          Adjacency.row graph point = Adjacency.row other point) ∧
    Adjacency.Alike blank (ofRows []) ∧ blank.edgeCount = (ofRows []).edgeCount ∧
    (∀ rows, blank ≠ ofRows rows) ∧ ∀ graph : γ, blank ≠ ofGraph graph := by
  refine ⟨fun rows => ?_, fun graph => ?_, fun _ _ => ofRows_inj,
    fun _ _ => ofGraph_eq_ofGraph_iff, blank_alike, rfl, blank_ne_ofRows, fun graph => ?_⟩
  · refine ⟨ofGraph_rowGraph rows, bounded_ofRows rows, pointCount_ofRows rows,
      edgeCount_ofRows rows, row_ofRows rows, ?_⟩
    exact ⟨by simp, fun point => by simp⟩
  · refine ⟨?_, pointCount_ofGraph graph, fun _ => row_ofGraph graph⟩
    rw [ofGraph_eq]
    exact bounded_ofRows _
  · rw [ofGraph_eq]
    exact blank_ne_ofRows _

/-- Four rows with the same targets as two other lists of rows, the last of them empty. -/
def lopsided : List (List Nat) := [[], [7, 0], [0], []]

theorem compressed_lopsided :
    2 < Adjacency.pointCount (RowGraph.ofRows lopsided) ∧
    Adjacency.row (ofGraph (RowGraph.ofRows lopsided)) 2 = [0] ∧
    Adjacency.row (ofRows lopsided) 9 = [] ∧ (ofRows lopsided).edgeCount = 3 ∧
    ofRows lopsided ≠ ofRows [[], [7], [0, 0], []] ∧
    ofRows lopsided ≠ ofRows [[], [7, 0], [0]] := by
  have inside : 2 < Adjacency.pointCount (RowGraph.ofRows lopsided) := by decide
  obtain ⟨rows, graphs, inj, -⟩ := compressed_faithful (γ := RowGraph) (δ := RowGraph)
  obtain ⟨-, -, -, edges, row, -⟩ := rows lopsided
  obtain ⟨-, -, kept⟩ := graphs (RowGraph.ofRows lopsided)
  refine ⟨inside, (kept 2 inside).trans rfl, row 9, edges, ?_, ?_⟩
  · rw [Ne, inj]
    decide
  · rw [Ne, inj]
    decide

end CompressedGraph

end Navigability
