import Mathlib.Data.List.Induction
import Navigability.Graph.Slotted
import Navigability.Proofs.Attempt
import Navigability.Proofs.Graph.Compressed

/-!
# The rows of slotted graphs

The rows of all points lie in one array of slots. The slots of two points do not meet, so writing
those of one point leaves the rows of all others as they are. A shorter row leaves neighbors of a
longer one behind it, but they are not in use any more.

A request to replace the row of a number that is no point can pass the check of the slots: an empty
list fits behind all slots, and any list is empty at width zero. It fails at the latest when it is
to be set how many slots are in use, and at that time no slot has been written.

## Main definitions

* `SlottedGraph.Formed n width`: a graph of `n` points whose rows can be cut out of the slots
* `SlottedGraph.after requests`: the graph that requests leave, whether they failed or not
* `SlottedGraph.requested requests point`: the list that was last requested for a point

## Main results

* `SlottedGraph.replaceRow_of_lt`, `SlottedGraph.replaceRow_of_le`: what one request does
* `SlottedGraph.rows_requested`: the rows after any requests
-/

namespace Navigability

open Attempt

/-! ## Values written side by side -/

section Overwrite

variable {α : Type} {values : List α} {a : Array α} {index : Nat}

theorem getElem?_overwrite (fits : index + values.length ≤ a.size) (i : Nat) :
    (overwrite a index values)[i]? =
      if index ≤ i ∧ i < index + values.length then values[i - index]? else a[i]? := by
  induction values generalizing a index with
  | nil =>
    rw [overwrite, if_neg]
    simp only [List.length_nil, Nat.add_zero]
    omega
  | cons value values ih =>
    rw [List.length_cons] at fits ⊢
    rw [overwrite, ih (by rw [Array.size_setIfInBounds]; omega)]
    by_cases behind : index + 1 ≤ i ∧ i < index + 1 + values.length
    · have shift : i - index = i - (index + 1) + 1 := by omega
      rw [if_pos behind, if_pos (by omega), shift, List.getElem?_cons_succ]
    · rw [if_neg behind, Array.getElem?_setIfInBounds]
      by_cases here : index = i
      · subst here
        rw [if_pos rfl, if_pos (by omega), if_pos (by omega), Nat.sub_self, List.getElem?_cons_zero]
      · rw [if_neg here, if_neg (by omega)]

/-- Cutting out what was written. -/
theorem extract_overwrite (fits : index + values.length ≤ a.size) :
    ((overwrite a index values).extract index (index + values.length)).toList = values := by
  apply List.ext_getElem?
  intro i
  rw [Array.getElem?_toList, Array.getElem?_extract, size_overwrite, getElem?_overwrite fits]
  by_cases inside : i < values.length
  · rw [if_pos (by omega), if_pos (by omega), Nat.add_sub_cancel_left]
  · rw [if_neg (by omega), List.getElem?_eq_none (by omega)]

/-- What lies apart from the values is as it was. -/
theorem extract_overwrite_of_disjoint (fits : index + values.length ≤ a.size) {start stop : Nat}
    (apart : stop ≤ index ∨ index + values.length ≤ start) :
    (overwrite a index values).extract start stop = a.extract start stop := by
  apply Array.ext_getElem?
  intro i
  rw [Array.getElem?_extract, Array.getElem?_extract, size_overwrite, getElem?_overwrite fits]
  by_cases inside : i < min stop a.size - start
  · rw [if_pos inside, if_pos inside, if_neg (by omega)]
  · rw [if_neg inside, if_neg inside]

end Overwrite

namespace SlottedGraph

variable {n width point : Nat} {graph : SlottedGraph}

/-! ## One request -/

/-- A graph of `n` points with `width` slots for each, of which none uses more. -/
structure Formed (n width : Nat) (graph : SlottedGraph) : Prop where
  width_eq : graph.width = width
  slots_size : graph.slots.size = n * width
  used_size : graph.used.size = n
  used_le : ∀ point (h : point < graph.used.size), graph.used[point] ≤ width

theorem formed_new (n width : Nat) : (new n width).Formed n width where
  width_eq := rfl
  slots_size := Array.size_replicate
  used_size := Array.size_replicate
  used_le point h := by simp [new]

/-- The slots of a point end before those of a later one begin. -/
theorem slots_apart {other : Nat} (lt : point < other) (width : Nat) :
    point * width + width ≤ other * width := by
  rw [← Nat.succ_mul]
  exact Nat.mul_le_mul_right width lt

/-- The row of a point is cut out of the slots. -/
theorem row_of_lt (h : point < graph.used.size) : Adjacency.row graph point =
    (graph.slots.extract (point * graph.width)
      (point * graph.width + graph.used[point])).toList := by
  simp only [Adjacency.row, Array.getElem?_eq_getElem h]

theorem row_of_le (h : graph.used.size ≤ point) : Adjacency.row graph point = [] := by
  simp only [Adjacency.row, Array.getElem?_eq_none h]

theorem writeSlots_of_le {neighbors : List Nat}
    (fits : point * graph.width + neighbors.length ≤ graph.slots.size) :
    writeSlots point neighbors graph =
      .ok () { graph with slots := overwrite graph.slots (point * graph.width) neighbors } :=
  if_pos fits

theorem replaceRow_eq (point : Nat) (neighbors : List Nat) (graph : SlottedGraph) :
    replaceRow point neighbors graph =
      (writeSlots point (neighbors.take graph.width) >>= fun _ =>
        writeUsed point (neighbors.take graph.width).length) graph := rfl

/-- A request that passes both checks. -/
theorem replaceRow_of_fits {neighbors : List Nat}
    (fits : point * graph.width + (neighbors.take graph.width).length ≤ graph.slots.size)
    (h : point < graph.used.size) : replaceRow point neighbors graph =
      .ok () {
        width := graph.width
        slots := overwrite graph.slots (point * graph.width) (neighbors.take graph.width)
        used := graph.used.set point (neighbors.take graph.width).length } := by
  rw [replaceRow_eq, bind_of_ok (writeSlots_of_le fits)]
  exact dif_pos h

namespace Formed

variable (formed : graph.Formed n width)

include formed

/-- Every row can be cut out of the slots. -/
theorem row_fits (h : point < graph.used.size) :
    point * width + graph.used[point] ≤ graph.slots.size := by
  rw [formed.slots_size]
  exact (Nat.add_le_add_left (formed.used_le point h) _).trans
    (slots_apart (h.trans_eq formed.used_size) width)

/-- **A request for a point** replaces its row and no other: the slots in use of another point end
before those of the point or begin behind them. -/
theorem replaceRow_of_lt (inside : point < n) (neighbors : List Nat) :
    ∃ replaced, replaceRow point neighbors graph = .ok () replaced ∧ replaced.Formed n width ∧
      ∀ other, Adjacency.row replaced other =
        if other = point then neighbors.take width else Adjacency.row graph other := by
  obtain ⟨rfl, slots_size, rfl, used_le⟩ := formed
  have short : (neighbors.take graph.width).length ≤ graph.width := List.length_take_le ..
  have fits : point * graph.width + (neighbors.take graph.width).length ≤ graph.slots.size := by
    rw [slots_size]
    exact (Nat.add_le_add_left short _).trans (slots_apart inside _)
  rw [replaceRow_of_fits fits inside]
  generalize neighbors.take graph.width = kept at short fits ⊢
  refine ⟨_, rfl, ⟨rfl, ?_, ?_, ?_⟩, fun other => ?_⟩
  · rw [← slots_size]
    exact size_overwrite ..
  · exact Array.size_set inside
  · intro other h
    simp only [Array.getElem_set]
    split
    · exact short
    · exact used_le other _
  · rcases Nat.lt_or_ge other graph.used.size with h | outside
    · rw [row_of_lt (by simpa using h)]
      by_cases same : other = point
      · subst same
        rw [if_pos rfl]
        simpa using extract_overwrite fits
      · have apart : other * graph.width + graph.used[other] ≤ point * graph.width ∨
            point * graph.width + kept.length ≤ other * graph.width := by
          rcases Nat.lt_or_gt_of_ne same with lt | gt
          · exact .inl ((Nat.add_le_add_left (used_le other h) _).trans (slots_apart lt _))
          · exact .inr ((Nat.add_le_add_left short _).trans (slots_apart gt _))
        rw [if_neg same, row_of_lt h]
        simp only [Array.getElem_set, if_neg (Ne.symm same)]
        rw [extract_overwrite_of_disjoint fits apart]
    · have other_ne : other ≠ point := fun same => Nat.not_lt.2 outside (same ▸ inside)
      rw [if_neg other_ne, row_of_le (by simpa using outside), row_of_le outside]

/-- **A request for a number that is no point** fails and leaves the graph as it was. Only the empty
list fits behind the slots of all points, and writing it writes nothing. -/
theorem replaceRow_of_le (outside : n ≤ point) (neighbors : List Nat) :
    ∃ cause, replaceRow point neighbors graph = .error (.fault cause) graph := by
  obtain ⟨rfl, slots_size, rfl, -⟩ := formed
  rw [replaceRow_eq]
  generalize neighbors.take graph.width = kept
  by_cases fits : point * graph.width + kept.length ≤ graph.slots.size
  · have before := Nat.mul_le_mul_right graph.width outside
    obtain rfl : kept = [] := List.length_eq_zero_iff.1 (by omega)
    exact ⟨_, (bind_of_ok (writeSlots_of_le fits)).trans (dif_neg (Nat.not_lt.2 outside))⟩
  · exact ⟨_, bind_of_error (if_neg fits)⟩

end Formed

/-! ## Requests in a row -/

/-- The graph that requests leave, one after another, whether they failed or not. -/
def after (graph : SlottedGraph) (requests : List (Nat × List Nat)) : SlottedGraph :=
  requests.foldl (fun graph request => left (replaceRow request.1 request.2 graph)) graph

/-- The list that was last requested for a point, or the empty list. -/
def requested (requests : List (Nat × List Nat)) (point : Nat) : List Nat :=
  ((requests.filter (·.1 = point)).getLast?.map Prod.snd).getD []

theorem after_concat (graph : SlottedGraph) (requests : List (Nat × List Nat))
    (request : Nat × List Nat) : graph.after (requests ++ [request]) =
      left (replaceRow request.1 request.2 (graph.after requests)) :=
  List.foldl_concat ..

theorem requested_concat (requests : List (Nat × List Nat)) (request : Nat × List Nat)
    (point : Nat) : requested (requests ++ [request]) point =
      if point = request.1 then request.2 else requested requests point := by
  rw [requested, List.filter_append]
  by_cases same : request.1 = point
  · simp [same]
  · simp [same, Ne.symm same, requested]

/-- The list that was last requested for a point was requested for it, if there is one. -/
theorem requested_eq_nil_or_mem (requests : List (Nat × List Nat)) (point : Nat) :
    requested requests point = [] ∨ (point, requested requests point) ∈ requests := by
  rw [requested]
  cases last : (requests.filter (·.1 = point)).getLast? with
  | none => exact .inl rfl
  | some request =>
    obtain ⟨mem, same⟩ := List.mem_filter.1 (List.mem_of_getLast? last)
    exact .inr (of_decide_eq_true same ▸ mem)

/-- Requests in a row leave every point with the front of the list that was last requested for
it. -/
theorem after_new (n width : Nat) (requests : List (Nat × List Nat)) :
    ((new n width).after requests).Formed n width ∧
      ∀ point < n, Adjacency.row ((new n width).after requests) point =
        (requested requests point).take width := by
  induction requests using List.reverseRecOn with
  | nil => exact ⟨formed_new n width, fun point _ => by simp [after, requested]⟩
  | append_singleton requests request ih =>
    obtain ⟨formed, rows⟩ := ih
    rw [after_concat]
    rcases Nat.lt_or_ge request.1 n with inside | outside
    · obtain ⟨replaced, ran, formed, row⟩ := formed.replaceRow_of_lt inside request.2
      rw [ran, left]
      refine ⟨formed, fun point lt => ?_⟩
      rw [row, requested_concat, rows point lt]
      split <;> rfl
    · obtain ⟨cause, ran⟩ := formed.replaceRow_of_le outside request.2
      rw [ran, left]
      refine ⟨formed, fun point lt => ?_⟩
      have other : point ≠ request.1 := (lt.trans_le outside).ne
      rw [requested_concat, if_neg other, rows point lt]

/-- Whether every row can be cut out of the slots. -/
def Bounded (graph : SlottedGraph) : Prop :=
  ∀ point (h : point < graph.used.size),
    point * graph.width + graph.used[point] ≤ graph.slots.size

/-- **Rows of a fixed width.** Whatever rows are requested of a new graph one after another, a
request is a fault just when it is for a number that is no point, and then it leaves the graph as it
was. A point has the front of the list that was last requested for it, as much of it as the width
allows, and no neighbors if none was requested; a number that is no point has none. If the width
allows for all lists, the graph answers as the graph of the lists that were last requested. -/
theorem rows_requested (n width : Nat) (requests : List (Nat × List Nat)) :
    (∀ point neighbors,
      ((∃ cause, outcome (replaceRow point neighbors ((new n width).after requests)) =
        .error (.fault cause)) ↔ n ≤ point) ∧
      (outcome (replaceRow point neighbors ((new n width).after requests)) = .ok () ↔
        point < n) ∧
      (n ≤ point → left (replaceRow point neighbors ((new n width).after requests)) =
        (new n width).after requests)) ∧
    ((new n width).after requests).Bounded ∧
    Adjacency.pointCount ((new n width).after requests) = n ∧
    (∀ point < n, Adjacency.row ((new n width).after requests) point =
        (requested requests point).take width ∧
      Adjacency.outDegree ((new n width).after requests) point =
        min width (requested requests point).length) ∧
    (∀ point, n ≤ point → Adjacency.row ((new n width).after requests) point = []) ∧
    ((∀ request ∈ requests, request.1 < n → request.2.length ≤ width) →
      Adjacency.Alike ((new n width).after requests)
        (RowGraph.ofRows ((List.range n).map (requested requests)))) := by
  obtain ⟨formed, rows⟩ := after_new n width requests
  generalize (new n width).after requests = graph at formed rows ⊢
  have outside : ∀ point, n ≤ point → Adjacency.row graph point = [] := fun point le =>
    row_of_le (formed.used_size.trans_le le)
  refine ⟨fun point neighbors => ?_, ?_, formed.used_size, ?_, outside, fun fits => ?_⟩
  · rcases Nat.lt_or_ge point n with lt | le
    · obtain ⟨replaced, ran, -⟩ := formed.replaceRow_of_lt lt neighbors
      rw [ran]
      exact ⟨iff_of_false nofun (Nat.not_le.2 lt), iff_of_true rfl lt,
        fun le => absurd lt (Nat.not_lt.2 le)⟩
    · obtain ⟨cause, ran⟩ := formed.replaceRow_of_le le neighbors
      rw [ran]
      exact ⟨iff_of_true ⟨cause, rfl⟩ le, iff_of_false nofun (Nat.not_lt.2 le), fun _ => rfl⟩
  · intro point h
    rw [formed.width_eq]
    exact formed.row_fits h
  · intro point lt
    rw [Adjacency.outDegree, rows point lt, List.length_take]
    exact ⟨rfl, rfl⟩
  · refine ⟨formed.used_size.trans (by simp), fun point => ?_⟩
    rcases Nat.lt_or_ge point n with lt | le
    · have short : (requested requests point).length ≤ width := by
        rcases requested_eq_nil_or_mem requests point with empty | mem
        · simp [empty]
        · exact fits _ mem lt
      rw [rows point lt, List.take_of_length_le short]
      simp [lt]
    · rw [outside point le]
      simp [le]

/-- A long row in place of a shorter one and the reverse, a row for the number behind the last
point, and an empty row for it. -/
def requests : List (Nat × List Nat) :=
  [(0, [1, 2, 0]), (2, [1]), (3, [4]), (0, [2]), (3, []), (2, [0, 0, 7])]

theorem rows_requested_twice :
    (∃ cause, outcome (replaceRow 3 [] ((new 3 2).after requests)) = .error (.fault cause)) ∧
    left (replaceRow 3 [] ((new 3 2).after requests)) = (new 3 2).after requests ∧
    0 < 3 ∧ Adjacency.row ((new 3 2).after requests) 0 = [2] ∧
    2 < 3 ∧ Adjacency.row ((new 3 2).after requests) 2 = [0, 0] ∧
    (∀ request ∈ requests, request.1 < 3 → request.2.length ≤ 3) ∧
    Adjacency.row ((new 3 3).after requests) 2 =
      Adjacency.row (RowGraph.ofRows ((List.range 3).map (requested requests))) 2 := by
  have fits : ∀ request ∈ requests, request.1 < 3 → request.2.length ≤ 3 := by decide
  obtain ⟨asked, -, -, rows, -⟩ := rows_requested 3 2 requests
  obtain ⟨-, -, -, -, -, alike⟩ := rows_requested 3 3 requests
  obtain ⟨faults, -, kept⟩ := asked 3 []
  exact ⟨faults.2 (Nat.le_refl 3), kept (Nat.le_refl 3), by decide, (rows 0 (by decide)).1,
    by decide, (rows 2 (by decide)).1, fits, (alike fits).row 2⟩

end SlottedGraph

end Navigability
