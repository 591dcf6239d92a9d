import Navigability.Proofs.Component.Closing
import Navigability.Proofs.Component.Entering
import Navigability.Proofs.Component.Storage

/-!
# Turns of a sound search

A turn from a state with the invariant finds the path empty, or enters the first member along the
row of the top that is not visited, or closes the top, or ends the search because the row names a
number outside the selection. It never misses its storage and leaves the invariant.

## Main definitions

* `Search.Sound`: a search with storage for all points, whose snapshot has the invariant

## Main results

* `turn_strays`, `turn_enters`, `turn_closes`: what a turn does
-/

namespace Navigability.Component

open Function (update)
open Attempt

variable {γ : Type} [Adjacency γ] {selection : Selection} {graph : γ} {s : Search}

/-! ## Reading a row -/

namespace Snapshot

theorem exists_first_unsettled (selection : Selection) (σ : Snapshot) (row : List Nat) :
    (∀ w ∈ row, σ.Settled selection w) ∨
    ∃ front w back, row = front ++ w :: back ∧ (∀ x ∈ front, σ.Settled selection x) ∧
      ¬ σ.Settled selection w := by
  induction row with
  | nil => exact .inl (by simp)
  | cons x row ih =>
    by_cases settled : σ.Settled selection x
    · rcases ih with all | ⟨front, w, back, rfl, before, unsettled⟩
      · exact .inl (List.forall_mem_cons.2 ⟨settled, all⟩)
      · exact .inr ⟨x :: front, w, back, rfl, List.forall_mem_cons.2 ⟨settled, before⟩, unsettled⟩
    · exact .inr ⟨[], x, row, rfl, by simp, settled⟩

/-- A number that is not settled is no point, or a member to be entered. -/
theorem not_settled_iff {σ : Snapshot} {w : Nat} : ¬ σ.Settled selection w ↔
    selection.pointCount ≤ w ∨ selection.isMember w ∧ σ.index w = 0 := by
  rw [Settled, not_and_or, Nat.not_lt]
  exact or_congr_right (by simp)

end Snapshot

variable {v : Nat} {row front back : List Nat}

theorem findUnvisited_cons_settled (size : s.points.size = selection.pointCount) {w position : Nat}
    (settled : s.snapshot.Settled selection w) :
    findUnvisited selection s.points v (w :: row) position =
      findUnvisited selection s.points v row (position + 1) := by
  rw [findUnvisited, Selection.admits_of_lt v settled.1]
  by_cases member : selection.isMember w
  · have visited : (s.stateOf w).index ≠ 0 := fun zero =>
      settled.2 member (congrArg UInt32.toNat zero)
    simp [member, bind, Except.bind, fetch_points (settled.1.trans_eq size.symm), visited]
  · simp [member, bind, Except.bind]

theorem findUnvisited_append_settled (size : s.points.size = selection.pointCount)
    (settled : ∀ x ∈ front, s.snapshot.Settled selection x) (v : Nat) (row : List Nat)
    (position : Nat) :
    findUnvisited selection s.points v (front ++ row) position =
      findUnvisited selection s.points v row (position + front.length) := by
  induction front generalizing position with
  | nil => rfl
  | cons w front ih =>
    rw [List.forall_mem_cons] at settled
    rw [List.cons_append, findUnvisited_cons_settled size settled.1, ih settled.2,
      List.length_cons, Nat.add_assoc, Nat.add_comm 1]

theorem findUnvisited_cons_stray {w position : Nat} (outside : selection.pointCount ≤ w) :
    findUnvisited selection s.points v (w :: row) position =
      .error (.neighborOutOfRange v w selection.pointCount) := by
  rw [findUnvisited, Selection.admits_of_le v outside]
  rfl

theorem findUnvisited_cons_fresh (size : s.points.size = selection.pointCount) {w position : Nat}
    (member : selection.isMember w) (fresh : s.snapshot.index w = 0) :
    findUnvisited selection s.points v (w :: row) position = .ok (some w, position + 1) := by
  have inside := Selection.lt_of_isMember member
  have unvisited : (s.stateOf w).index = 0 := UInt32.toNat_inj.1 fresh
  rw [findUnvisited, Selection.admits_of_lt v inside]
  simp [member, bind, Except.bind, fetch_points (inside.trans_eq size.symm), unvisited, pure,
    Except.pure]

/-- Reading a row on where it was left finds what reading all of it finds. -/
theorem findUnvisited_drop (size : s.points.size = selection.pointCount) {position : Nat}
    (le : position ≤ row.length)
    (settled : ∀ x ∈ row.take position, s.snapshot.Settled selection x) :
    findUnvisited selection s.points v (row.drop position) position =
      findUnvisited selection s.points v row 0 := by
  have whole := findUnvisited_append_settled size settled v (row.drop position) 0
  rw [List.take_append_drop, List.length_take_of_le le, Nat.zero_add] at whole
  exact whole.symm

/-! ## Sound searches -/

/-- A search with storage for all points of a selection, whose snapshot has the invariant. -/
structure Search.Sound (selection : Selection) (graph : γ) (s : Search) : Prop where
  size : s.points.size = selection.pointCount
  small : selection.pointCount < pointLimit
  invariant : s.snapshot.Invariant selection graph

namespace Search.Sound

variable (sound : s.Sound selection graph) {p : Nat}

include sound

theorem inside (member : selection.isMember p) : p < s.points.size :=
  (Selection.lt_of_isMember member).trans_eq sound.size.symm

theorem fits (member : selection.isMember p) : p < UInt32.size :=
  (Selection.lt_of_isMember member).trans (sound.small.trans (by decide))

theorem inside_of_trail (trail : p ∈ s.snapshot.trail) : p < s.points.size :=
  sound.inside (sound.invariant.member p (sound.invariant.visited_of_trail trail))

/-- A member that is not visited can be entered: there are no more numbers than members, and no more
members than points. -/
theorem room (member : selection.isMember p) (fresh : s.snapshot.index p = 0) :
    s.snapshot.lastIndex + 1 < UInt32.size := by
  have count := sound.invariant.lastIndex_lt member fresh
  have le := selection.memberCount_le
  have small := sound.small
  rw [pointLimit] at small
  omega

end Search.Sound

/-- The top of the path, as the storage has it. -/
theorem Search.path_eq_cons {below : List Nat} (path : s.snapshot.path = v :: below) :
    ∃ top rest, s.path = top :: rest ∧ top.toNat = v := by
  obtain ⟨top, rest, shape, same, -⟩ := List.map_eq_cons_iff.1 path
  exact ⟨top, rest, shape, same⟩

theorem turn_finished (path : s.snapshot.path = []) :
    turn selection graph s = .ok .finished s := by
  have empty : s.path = [] := List.map_eq_nil_iff.1 path
  have got : (get : Attempt Search Search) s = .ok s s := rfl
  rw [turn, bind_of_ok got, empty]
  rfl

section Turn

variable {below : List Nat} (sound : s.Sound selection graph) (path : s.snapshot.path = v :: below)

include sound path

/-- A turn reads the row of the top as if from its start, puts down how far, and then enters what
it found or closes the top. -/
theorem turn_eq : ∃ act : Option Nat × Nat → Attempt Search Turn,
    turn selection graph s =
      (check (findUnvisited selection s.points v (Adjacency.row graph v) 0) >>= act) s ∧
    (∀ w stop, act (some w, stop) = do
      setState v { s.stateOf v with position := UInt32.ofNat stop }
      enter w v
      return .entered w) ∧
    ∀ stop, act (none, stop) = do
      setState v { s.stateOf v with position := UInt32.ofNat stop }
      close selection v (Adjacency.row graph v)
      return .closed v := by
  obtain ⟨top, rest, shape, same⟩ := Search.path_eq_cons path
  have mem := Snapshot.top_mem path
  have inside := sound.inside (sound.invariant.member v (sound.invariant.visited_of_path mem))
  have got : (get : Attempt Search Search) s = .ok s s := rfl
  have resumed : findUnvisited selection s.points v
      ((Adjacency.row graph v).drop (s.stateOf v).position.toNat) (s.stateOf v).position.toNat =
        findUnvisited selection s.points v (Adjacency.row graph v) 0 :=
    findUnvisited_drop sound.size (sound.invariant.position_le v mem)
      (sound.invariant.read_settled v mem)
  rw [turn, bind_of_ok got, shape]
  simp only [same]
  rw [bind_of_ok (stateAt_of_lt inside), bind_of_ok got, resumed]
  exact ⟨_, rfl, fun _ _ => rfl, fun _ => rfl⟩

/-- A row that strays ends the search. -/
theorem turn_strays {w : Nat} (shape : Adjacency.row graph v = front ++ w :: back)
    (settled : ∀ x ∈ front, s.snapshot.Settled selection x) (outside : selection.pointCount ≤ w) :
    turn selection graph s = .error (.neighborOutOfRange v w selection.pointCount) s := by
  have found : findUnvisited selection s.points v (Adjacency.row graph v) 0 =
      .error (.neighborOutOfRange v w selection.pointCount) := by
    rw [shape, findUnvisited_append_settled sound.size settled, findUnvisited_cons_stray outside]
  have checked : check (findUnvisited selection s.points v (Adjacency.row graph v) 0) s =
      .error (.neighborOutOfRange v w selection.pointCount) s := by
    rw [found]
    rfl
  obtain ⟨act, ran, -⟩ := turn_eq sound path
  rw [ran, bind_of_error checked]

/-- The first member along the row that is not visited is entered. The entry that was read last is
settled only then. -/
theorem turn_enters {w : Nat} (shape : Adjacency.row graph v = front ++ w :: back)
    (settled : ∀ x ∈ front, s.snapshot.Settled selection x) (member : selection.isMember w)
    (fresh : s.snapshot.index w = 0) :
    ∃ s', turn selection graph s = .ok (.entered w) s' ∧ s'.Sound selection graph ∧
      s'.snapshot = (s.snapshot.readTo v (front.length + 1)).enter w v := by
  have mem := Snapshot.top_mem path
  have visited := sound.invariant.visited_of_path mem
  have source := sound.invariant.member v visited
  have found : check (findUnvisited selection s.points v (Adjacency.row graph v) 0) s =
      .ok (some w, front.length + 1) s := by
    rw [shape, findUnvisited_append_settled sound.size settled,
      findUnvisited_cons_fresh sound.size member fresh, Nat.zero_add]
    rfl
  let t := s.put v { s.stateOf v with position := UInt32.ofNat (front.length + 1) }
  have inside : w < t.points.size := (sound.inside member).trans_eq (Search.size_put _).symm
  obtain ⟨s', ran, size, shown⟩ := enter_snapshot inside (sound.room member fresh)
    (sound.fits member) (sound.fits source)
  rw [Search.snapshot_put (sound.inside source), Search.put_position] at shown
  refine ⟨s', ?_, ⟨(size.trans (Search.size_put _)).trans sound.size, sound.small, ?_⟩, shown⟩
  · obtain ⟨act, acts, enters, -⟩ := turn_eq sound path
    rw [acts, bind_of_ok found, enters, bind_of_ok (setState_of_lt (sound.inside source) _),
      bind_of_ok ran]
    rfl
  · have other : v ≠ w := fun same => visited (same ▸ fresh)
    have step : selection.Step graph v w := ⟨source, by simp [shape], member⟩
    have origin : v = s.snapshot.path.headD w ∧
        ∀ u ∈ s.snapshot.path.head?, selection.Step graph u w := by
      simpa [path] using step
    have entered := sound.invariant.enter member fresh origin
    have swap : (s.snapshot.readTo v (front.length + 1)).enter w v =
        (s.snapshot.enter w v).readTo v (front.length + 1) := by
      simp only [Snapshot.enter, Snapshot.readTo, Snapshot.mk.injEq, and_true, true_and]
      exact Function.update_comm other _ _ _
    rw [shown, swap]
    exact entered.readTo (by simp [shape]) (Snapshot.settled_enter shape settled member)

/-- A point all of whose row is settled is closed. What may come off the trail lies inside the
storage and is not out. -/
theorem turn_closes (settled : ∀ x ∈ Adjacency.row graph v, s.snapshot.Settled selection x) :
    ∃ s', turn selection graph s = .ok (.closed v) s' ∧ s'.Sound selection graph ∧
      s'.snapshot = (s.snapshot.readTo v (Adjacency.row graph v).length).close selection v
        (Adjacency.row graph v) := by
  have mem := Snapshot.top_mem path
  have inv := sound.invariant
  have source := inv.member v (inv.visited_of_path mem)
  have found : check (findUnvisited selection s.points v (Adjacency.row graph v) 0) s =
      .ok (none, (Adjacency.row graph v).length) s := by
    have whole := findUnvisited_append_settled sound.size settled v [] 0
    rw [List.append_nil, Nat.zero_add] at whole
    rw [whole]
    rfl
  obtain ⟨above, rest, shape⟩ := List.append_of_mem (inv.trail_of_path mem)
  obtain ⟨distinct, cut⟩ := inv.trail_cut shape
  let t := s.put v { s.stateOf v with position := UInt32.ofNat (Adjacency.row graph v).length }
  have size : t.points.size = s.points.size := Search.size_put _
  have shown : t.snapshot = s.snapshot.readTo v (Adjacency.row graph v).length := by
    rw [Search.snapshot_put (sound.inside source), Search.put_position]
  have inside : ∀ {p}, p < s.points.size → p < t.points.size := fun h => h.trans_eq size.symm
  have parent : t.snapshot.parent v < t.points.size := by
    rw [shown]
    exact inside (sound.inside_of_trail (inv.trail_of_path (inv.parent_mem_path path)))
  have shape' : t.snapshot.trail = above ++ v :: rest := by
    rw [shown]
    exact shape
  obtain ⟨s', ran, sized, closed⟩ := close_snapshot (inside (sound.inside source)) parent
    (fun w (_ : w ∈ Adjacency.row graph v) member => inside (sound.inside member)) shape' distinct
    (fun p h => inside (sound.inside_of_trail (cut p h).1))
    (fun p h => by rw [shown]; exact inv.unlisted_of_trail (cut p h).1)
  rw [shown] at closed
  refine ⟨s', ?_, ⟨(sized.trans size).trans sound.size, sound.small, ?_⟩, closed⟩
  · obtain ⟨act, acts, -, closes⟩ := turn_eq sound path
    rw [acts, bind_of_ok found, closes, bind_of_ok (setState_of_lt (sound.inside source) _),
      bind_of_ok ran]
    rfl
  · have read := inv.readTo (v := v) (Nat.le_refl _) fun x h => settled x (List.mem_of_mem_take h)
    rw [closed]
    exact read.close path settled

end Turn

end Navigability.Component
