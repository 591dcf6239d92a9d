import Mathlib.Data.List.Nodup
import Navigability.Proofs.Component.Change
import Navigability.Proofs.Component.Recorder

/-!
# The entries that a turn reads

A turn reads the row of the top of the path on from where it was left. It reads one entry after
another, and an entry ends the reading if it is no point or a member that is not visited. What was
read of a row is therefore always its beginning, up to the position that is put down, and a turn
reads on exactly from there.

## Main definitions

* `entriesAt`: entries of one row
* `Snapshot.Ledger`: the entries that were read are those before the positions

## Main results

* `slots_of_unsettled`, `slots_of_settled`: the entries that a turn reads
* `Ledger.readTo`, `Ledger.enter`, `Ledger.close`: what the ledger is after a turn
-/

namespace Navigability.Component

open Function (update)
open Attempt

variable {γ : Type} [Adjacency γ] {selection : Selection} {graph : γ} {s : Search} {σ : Snapshot}
  {v w position : Nat} {row front back below : List Nat} {read : List (Nat × Nat)}

/-- The entries at some positions of the row of a point, each as the point and the position. -/
def entriesAt (v : Nat) (positions : List Nat) : List (Nat × Nat) := positions.map (v, ·)

/-! ## Reading a row entry by entry -/

section Row

variable {r : Recorder}

/-- An entry that is settled is read, and the reading goes on. -/
theorem readRow_cons_settled (size : r.points.size = selection.pointCount)
    (settled : r.snapshot.Settled selection w) (row : List Nat) (position : Nat) :
    readRow selection v (w :: row) position r =
      readRow selection v row (position + 1) (r.add v position) := by
  have admits : selection.admits v w = .ok (selection.isMember w) :=
    Selection.admits_of_lt v settled.1
  by_cases member : selection.isMember w
  · have visited : (r.stateOf w).index ≠ 0 := fun zero =>
      settled.2 member (congrArg UInt32.toNat zero)
    rw [member] at admits
    rw [readRow_of_admitted admits, fetch_points (settled.1.trans_eq size.symm)]
    exact if_neg visited
  · rw [Bool.not_eq_true] at member
    rw [member] at admits
    exact readRow_of_passed admits

/-- An entry that is not settled is the last one that is read. -/
theorem readRow_cons_unsettled (size : r.points.size = selection.pointCount)
    (unsettled : ¬ r.snapshot.Settled selection w) (row : List Nat) (position : Nat) :
    (left (readRow selection v (w :: row) position r)).read = r.read ++ [(v, position)] := by
  rcases Snapshot.not_settled_iff.1 unsettled with outside | ⟨member, fresh⟩
  · rw [readRow_of_not_admits (Selection.admits_of_le v outside)]
    rfl
  · have inside := Selection.lt_of_isMember member
    have unvisited : (r.stateOf w).index = 0 := UInt32.toNat_inj.1 fresh
    have admits : selection.admits v w = .ok (selection.isMember w) :=
      Selection.admits_of_lt v inside
    rw [member] at admits
    rw [readRow_of_admitted admits, fetch_points (inside.trans_eq size.symm)]
    simp only [unvisited, if_true]
    rfl

/-- A row is read through its settled entries. -/
theorem readRow_append_settled (size : r.points.size = selection.pointCount)
    (settled : ∀ x ∈ front, r.snapshot.Settled selection x) (row : List Nat) (position : Nat) :
    readRow selection v (front ++ row) position r =
      readRow selection v row (position + front.length)
        { r with read := r.read ++ entriesAt v (List.range' position front.length) } := by
  induction front generalizing position r with
  | nil => simp [entriesAt]
  | cons w front ih =>
    obtain ⟨here, settled⟩ := List.forall_mem_cons.1 settled
    rw [List.cons_append, readRow_cons_settled size here, ih (r := r.add v position) size settled,
      List.length_cons, List.range'_succ, Nat.add_assoc, Nat.add_comm 1]
    simp [entriesAt, Recorder.add]

/-- A row is read up to its first entry that is not settled, that one included. -/
theorem readRow_append_unsettled (size : r.points.size = selection.pointCount)
    (settled : ∀ x ∈ front, r.snapshot.Settled selection x)
    (unsettled : ¬ r.snapshot.Settled selection w) (back : List Nat) (position : Nat) :
    (left (readRow selection v (front ++ w :: back) position r)).read =
      r.read ++ entriesAt v (List.range' position (front.length + 1)) := by
  have last := readRow_cons_unsettled (v := v)
    (r := { r with read := r.read ++ entriesAt v (List.range' position front.length) })
    size unsettled back (position + front.length)
  rw [readRow_append_settled size settled, last, List.range'_concat]
  simp [entriesAt]

end Row

/-! ## The entries that a turn reads -/

/-- What was read of a row and is settled ends at or before the first entry that is not. -/
theorem Snapshot.read_le_of_unsettled {stop : Nat}
    (row : Adjacency.row graph v = front ++ w :: back)
    (read : ∀ x ∈ (Adjacency.row graph v).take stop, σ.Settled selection x)
    (unsettled : ¬ σ.Settled selection w) : stop ≤ front.length := by
  by_contra beyond
  refine unsettled (read w ?_)
  rw [row, List.take_append, List.mem_append]
  refine .inr ?_
  have some : stop - front.length ≠ 0 := Nat.sub_ne_zero_of_lt (Nat.not_le.1 beyond)
  obtain ⟨more, shape⟩ := Nat.exists_eq_succ_of_ne_zero some
  rw [shape, List.take_succ_cons]
  exact List.mem_cons_self

section Turn

variable (sound : s.Sound selection graph) (path : s.snapshot.path = v :: below)

include sound path

/-- A row is left at or before its first entry that is not settled. -/
theorem position_le_of_unsettled (row : Adjacency.row graph v = front ++ w :: back)
    (unsettled : ¬ s.snapshot.Settled selection w) : s.snapshot.position v ≤ front.length :=
  Snapshot.read_le_of_unsettled row
    (sound.invariant.read_settled v (Snapshot.top_mem path)) unsettled

/-- A turn reads the row of the top, from where it was left. -/
theorem slots_eq_readRow : s.slots selection graph =
    (left (readRow selection v ((Adjacency.row graph v).drop (s.snapshot.position v))
      (s.snapshot.position v) { toSearch := s })).read := by
  obtain ⟨top, rest, shape, rfl⟩ := Search.path_eq_cons path
  have inside := sound.inside_of_trail (sound.invariant.trail_of_path (Snapshot.top_mem path))
  exact slots_eq shape (stateAt_of_lt inside)

/-- A turn reads on to the first entry that is not settled, that one included. -/
theorem slots_of_unsettled (row : Adjacency.row graph v = front ++ w :: back)
    (settled : ∀ x ∈ front, s.snapshot.Settled selection x)
    (unsettled : ¬ s.snapshot.Settled selection w) :
    s.slots selection graph = entriesAt v (List.range' (s.snapshot.position v)
      (front.length + 1 - s.snapshot.position v)) := by
  have le := position_le_of_unsettled sound path row unsettled
  have rest : (Adjacency.row graph v).drop (s.snapshot.position v) =
      front.drop (s.snapshot.position v) ++ w :: back := by
    rw [row, List.drop_append_of_le_length le]
  have before : ∀ x ∈ front.drop (s.snapshot.position v), s.snapshot.Settled selection x :=
    fun x mem => settled x (List.mem_of_mem_drop mem)
  have length : front.length + 1 - s.snapshot.position v =
      (front.length - s.snapshot.position v) + 1 := by omega
  have whole := readRow_append_unsettled (r := { toSearch := s }) (v := v) sound.size before
    unsettled back (s.snapshot.position v)
  rw [List.length_drop, ← length] at whole
  rw [slots_eq_readRow sound path, rest, whole]
  rfl

/-- A turn that closes the top reads its row to the end. -/
theorem slots_of_settled (settled : ∀ x ∈ Adjacency.row graph v, s.snapshot.Settled selection x) :
    s.slots selection graph = entriesAt v (List.range' (s.snapshot.position v)
      ((Adjacency.row graph v).length - s.snapshot.position v)) := by
  have before : ∀ x ∈ (Adjacency.row graph v).drop (s.snapshot.position v),
      s.snapshot.Settled selection x := fun x mem => settled x (List.mem_of_mem_drop mem)
  have whole := readRow_append_settled (r := { toSearch := s }) (v := v) sound.size before []
    (s.snapshot.position v)
  rw [List.append_nil, List.length_drop] at whole
  rw [slots_eq_readRow sound path, whole]
  rfl

end Turn

/-! ## The ledger -/

/-- The entries that were read are those before the positions, each of them once. Of a point that is
not visited nothing was read, and of one that is closed the whole row. -/
structure Snapshot.Ledger (graph : γ) (σ : Snapshot) (read : List (Nat × Nat)) : Prop where
  distinct : read.Nodup
  mem_iff : ∀ v i, (v, i) ∈ read ↔ i < σ.position v
  unread : ∀ v, σ.index v = 0 → σ.position v = 0
  closed : ∀ v, σ.index v ≠ 0 → v ∉ σ.path → σ.position v = (Adjacency.row graph v).length

namespace Snapshot.Ledger

theorem blank : Snapshot.blank.Ledger graph [] := by
  constructor <;> simp [Snapshot.blank]

variable (ledger : σ.Ledger graph read)

include ledger

/-- A row is read on from where it was left, so what is read now was not read before. -/
theorem readTo {stop : Nat} (reading : v ∈ σ.path) (visited : σ.index v ≠ 0)
    (le : σ.position v ≤ stop) (fits : stop < UInt32.size) :
    (σ.readTo v stop).Ledger graph (read ++ entriesAt v
      (List.range' (σ.position v) (stop - σ.position v))) := by
  have self : (σ.readTo v stop).position v = stop :=
    readTo_position_self.trans (Nat.mod_eq_of_lt fits)
  have other : ∀ {p}, p ≠ v → (σ.readTo v stop).position p = σ.position p := readTo_position_of_ne
  have added : ∀ p i, (p, i) ∈ entriesAt v (List.range' (σ.position v) (stop - σ.position v)) ↔
      p = v ∧ σ.position v ≤ i ∧ i < stop := by
    intro p i
    simp only [entriesAt, List.mem_map, List.mem_range'_1, Prod.mk.injEq]
    constructor
    · rintro ⟨j, ⟨low, high⟩, rfl, rfl⟩
      omega
    · rintro ⟨rfl, low, high⟩
      exact ⟨i, ⟨low, by omega⟩, rfl, rfl⟩
  constructor
  case distinct =>
    refine List.nodup_append'.2 ⟨ledger.distinct, ?_, ?_⟩
    · exact (List.nodup_range' ..).map fun i j same => (Prod.mk.inj same).2
    · rintro ⟨p, i⟩ old new
      obtain ⟨rfl, low, -⟩ := (added p i).1 new
      exact Nat.not_lt.2 low ((ledger.mem_iff p i).1 old)
  case mem_iff =>
    intro p i
    rw [List.mem_append, ledger.mem_iff, added]
    by_cases same : p = v
    · subst same
      rw [self]
      omega
    · rw [other same]
      exact or_iff_left fun new => same new.1
  case unread =>
    intro p fresh
    have apart : p ≠ v := fun same => visited (same ▸ fresh)
    rw [other apart]
    exact ledger.unread p fresh
  case closed =>
    intro p seen left
    have apart : p ≠ v := fun same => left (same ▸ reading)
    rw [other apart]
    exact ledger.closed p seen left

/-- Of a point that is entered nothing was read. -/
theorem enter (fresh : σ.index w = 0) (parent : Nat) : (σ.enter w parent).Ledger graph read := by
  have same : (σ.enter w parent).position = σ.position := by
    have nothing := ledger.unread w fresh
    show update σ.position w 0 = σ.position
    rw [← nothing, Function.update_eq_self]
  constructor
  case distinct => exact ledger.distinct
  case mem_iff =>
    rw [same]
    exact ledger.mem_iff
  case unread =>
    intro p unvisited
    rw [same]
    by_cases here : p = w
    · rw [here, enter_index_self] at unvisited
      exact absurd unvisited (Nat.succ_ne_zero _)
    · rw [enter_index_of_ne here] at unvisited
      exact ledger.unread p unvisited
  case closed =>
    intro p visited left
    obtain ⟨here, below⟩ : p ≠ w ∧ p ∉ σ.path := not_or.1 fun mem => left (List.mem_cons.2 mem)
    rw [enter_index_of_ne here] at visited
    rw [same]
    exact ledger.closed p visited below

/-- A point is closed when the whole of its row was read. -/
theorem close (path : σ.path = v :: below)
    (whole : σ.position v = (Adjacency.row graph v).length) :
    (σ.close selection v row).Ledger graph read := by
  have position := σ.close_position v selection row
  constructor
  case distinct => exact ledger.distinct
  case mem_iff =>
    rw [position]
    exact ledger.mem_iff
  case unread =>
    rw [position, close_index]
    exact ledger.unread
  case closed =>
    intro p visited left
    rw [close_index] at visited
    rw [close_path, path, List.tail_cons] at left
    rw [position]
    by_cases here : p = v
    · exact here ▸ whole
    · refine ledger.closed p visited ?_
      rw [path]
      exact List.not_mem_cons_of_ne_of_not_mem here left

end Snapshot.Ledger

end Navigability.Component
