import Navigability.Proofs.Component.Snapshot

/-!
# The storage of a search and its snapshot

Each operation on the storage of a component search succeeds where its accesses lie inside the
storage and its numbers fit into 32 bits, and does to the snapshot what the operation of the same
name on snapshots does.

## Main results

* `enter_snapshot`, `close_snapshot`: what becomes of the snapshot when a point is entered or closed
* `close_eq`: closing retires a point, and puts out its component if it is a root
* `unwind_snapshot`: what becomes of it when a component is taken off the trail
* `lowest_snapshot`: the least number along a row, read from the storage
-/

namespace Navigability.Component

open Function (update)
open Attempt

/-- The snapshot with another state of a point. -/
def Snapshot.put (σ : Snapshot) (point : Nat) (state : PointState) : Snapshot :=
  { σ with
    index := update σ.index point state.index.toNat
    low := update σ.low point state.low.toNat
    parent := update σ.parent point state.parent.toNat
    position := update σ.position point state.position.toNat
    onTrail := update σ.onTrail point state.onTrail
    listed := update σ.listed point state.listed }

/-- The search with another state of a point. -/
def Search.put (s : Search) (point : Nat) (state : PointState) : Search :=
  { s with points := s.points.setIfInBounds point state }

variable {s : Search} {point : Nat}

/-! ## Single accesses -/

theorem fetch_points (h : point < s.points.size) :
    fetch s.points point = .ok (s.stateOf point) := by
  rw [fetch_of_lt h, Search.stateOf, Array.getD_eq_getD_getElem?, Array.getElem?_eq_getElem h,
    Option.getD_some]

theorem stateAt_of_lt (h : point < s.points.size) : stateAt point s = .ok (s.stateOf point) s := by
  have found : check (fetch s.points point) s = .ok (s.stateOf point) s := by
    rw [fetch_points h]
    rfl
  exact found

theorem setState_of_lt (h : point < s.points.size) (state : PointState) :
    setState point state s = .ok () (s.put point state) := by
  rw [setState, dif_pos h, Search.put, Array.setIfInBounds_def, dif_pos h]

@[simp] theorem Search.size_put (state : PointState) :
    (s.put point state).points.size = s.points.size := by
  simp [Search.put]

theorem Search.stateOf_put (h : point < s.points.size) (state : PointState) :
    (s.put point state).stateOf = update s.stateOf point state := by
  funext other
  rw [Function.update_apply, Search.stateOf, Search.put, Array.getD_eq_getD_getElem?,
    Array.getElem?_setIfInBounds]
  by_cases same : point = other
  · rw [if_pos same, if_pos same.symm, if_pos h, Option.getD_some]
  · rw [if_neg same, if_neg (Ne.symm same), Search.stateOf, Array.getD_eq_getD_getElem?]

theorem Search.snapshot_put (h : point < s.points.size) (state : PointState) :
    (s.put point state).snapshot = s.snapshot.put point state := by
  have read : ∀ {β : Type} (field : PointState → β),
      (fun other => field ((s.put point state).stateOf other)) =
        update (fun other => field (s.stateOf other)) point (field state) := by
    intro β field
    funext other
    rw [Search.stateOf_put h, Function.update_apply, Function.update_apply, apply_ite field]
  simp only [Search.snapshot, Snapshot.put, Snapshot.mk.injEq]
  exact ⟨read (·.index.toNat), read (·.low.toNat), read (·.parent.toNat), read (·.position.toNat),
    read (·.onTrail), read (·.listed), rfl, rfl, rfl, rfl, rfl⟩

/-- Putting down the state that is there changes nothing. -/
theorem Search.put_stateOf : s.snapshot.put point (s.stateOf point) = s.snapshot := by
  simp only [Snapshot.put, Search.snapshot, Snapshot.mk.injEq, and_true]
  refine ⟨?_, ?_, ?_, ?_, ?_, ?_⟩
  all_goals exact Function.update_eq_self point _

/-- Of a state that differs in what the point reaches, the snapshot shows that. -/
theorem Search.put_low (low : UInt32) :
    s.snapshot.put point { s.stateOf point with low } =
      { s.snapshot with low := update s.snapshot.low point low.toNat } := by
  show { s.snapshot.put point (s.stateOf point) with
    low := update s.snapshot.low point low.toNat } = _
  rw [put_stateOf]

/-- Of a state that differs in how far the row was read, the snapshot shows that. -/
theorem Search.put_position (stop : Nat) :
    s.snapshot.put point { s.stateOf point with position := UInt32.ofNat stop } =
      s.snapshot.readTo point stop := by
  show { s.snapshot.put point (s.stateOf point) with
    position := update s.snapshot.position point (UInt32.ofNat stop).toNat } = _
  rw [put_stateOf, UInt32.toNat_ofNat']
  rfl

/-- Of a state that was taken off the trail, the snapshot shows that. -/
theorem Search.put_listed :
    s.snapshot.put point { s.stateOf point with onTrail := false, listed := true } =
      { s.snapshot with
        onTrail := update s.snapshot.onTrail point false
        listed := update s.snapshot.listed point true } := by
  show { s.snapshot.put point (s.stateOf point) with
    onTrail := update s.snapshot.onTrail point false
    listed := update s.snapshot.listed point true } = _
  rw [put_stateOf]

/-! ## Entering a point -/

theorem toNat_succ {a : UInt32} (room : a.toNat + 1 < UInt32.size) :
    (a + 1).toNat = a.toNat + 1 := by
  rw [UInt32.toNat_add]
  exact Nat.mod_eq_of_lt room

theorem nextIndex_of_lt (room : s.lastIndex.toNat + 1 < UInt32.size) :
    nextIndex s = .ok (s.lastIndex + 1) { s with lastIndex := s.lastIndex + 1 } := by
  rw [nextIndex, if_neg]
  intro zero
  have value := toNat_succ room
  rw [zero] at value
  exact absurd value.symm (Nat.succ_ne_zero _)

/-- Of the state of a point that is entered, the snapshot shows its number and where it was entered
from. -/
theorem Search.put_entered (index : UInt32) {parent : Nat} (fits : parent < UInt32.size) :
    s.snapshot.put point { s.stateOf point with
      index, low := index, parent := UInt32.ofNat parent, position := 0, onTrail := true } =
      { s.snapshot with
        index := update s.snapshot.index point index.toNat
        low := update s.snapshot.low point index.toNat
        parent := update s.snapshot.parent point parent
        position := update s.snapshot.position point 0
        onTrail := update s.snapshot.onTrail point true } := by
  show { s.snapshot.put point (s.stateOf point) with
    index := update s.snapshot.index point index.toNat
    low := update s.snapshot.low point index.toNat
    parent := update s.snapshot.parent point (UInt32.ofNat parent).toNat
    position := update s.snapshot.position point 0
    onTrail := update s.snapshot.onTrail point true } = _
  rw [put_stateOf, UInt32.toNat_ofNat_of_lt' fits]

theorem enter_snapshot {parent : Nat} (h : point < s.points.size)
    (room : s.lastIndex.toNat + 1 < UInt32.size) (fits : point < UInt32.size)
    (parent_fits : parent < UInt32.size) :
    ∃ s', enter point parent s = .ok () s' ∧ s'.points.size = s.points.size ∧
      s'.snapshot = s.snapshot.enter point parent := by
  let t : Search := { s with lastIndex := s.lastIndex + 1 }
  have size : point < t.points.size := h
  rw [enter, bind_of_ok (nextIndex_of_lt room), bind_of_ok (stateAt_of_lt size),
    bind_of_ok (setState_of_lt size _)]
  refine ⟨_, rfl, Search.size_put _, ?_⟩
  have put := Search.snapshot_put size
    { t.stateOf point with
      index := s.lastIndex + 1, low := s.lastIndex + 1, parent := UInt32.ofNat parent,
      position := 0, onTrail := true }
  rw [Search.put_entered (s.lastIndex + 1) parent_fits, toNat_succ room] at put
  have number : t.snapshot.lastIndex = s.snapshot.lastIndex + 1 := toNat_succ room
  have pushed := congrArg (fun σ : Snapshot => { σ with
    path := (UInt32.ofNat point).toNat :: s.snapshot.path
    trail := (UInt32.ofNat point).toNat :: s.snapshot.trail }) put
  refine pushed.trans ?_
  rw [number, UInt32.toNat_ofNat_of_lt' fits]
  rfl

/-! ## Closing a point -/

theorem toNat_min (a b : UInt32) : (min a b).toNat = min a.toNat b.toNat := by
  have unfolded : min a b = if a ≤ b then a else b := rfl
  rw [unfolded]
  split
  · next le => exact (Nat.min_eq_left (UInt32.le_iff_toNat_le.1 le)).symm
  · next gt =>
    rw [UInt32.le_iff_toNat_le] at gt
    exact (Nat.min_eq_right (Nat.le_of_not_le gt)).symm

theorem lowest_snapshot {selection : Selection} {row : List Nat} (low : UInt32)
    (inside : ∀ w ∈ row, selection.isMember w → w < s.points.size) :
    ∃ least, lowest selection s.points row low = .ok least ∧
      least.toNat = s.snapshot.lowest selection row low.toNat := by
  induction row generalizing low with
  | nil => exact ⟨low, rfl, rfl⟩
  | cons neighbor row ih =>
    have rest : ∀ w ∈ row, selection.isMember w → w < s.points.size :=
      fun w mem => inside w (List.mem_cons_of_mem _ mem)
    rw [lowest, Snapshot.lowest]
    by_cases member : selection.isMember neighbor
    · have found := fetch_points (inside neighbor List.mem_cons_self member)
      simp only [member, if_true, found, bind, Except.bind, true_and]
      by_cases trail : (s.stateOf neighbor).onTrail
      · obtain ⟨least, read, value⟩ := ih (min low (s.stateOf neighbor).index) rest
        have value : least.toNat =
            s.snapshot.lowest selection row (min low.toNat (s.snapshot.index neighbor)) := by
          rw [value, toNat_min]
          rfl
        have shown : s.snapshot.onTrail neighbor = true := trail
        exact ⟨least, by simp [trail, read], by simpa [shown] using value⟩
      · have shown : ¬ s.snapshot.onTrail neighbor = true := trail
        obtain ⟨least, read, value⟩ := ih low rest
        exact ⟨least, by simp [trail, read], by simpa [shown] using value⟩
    · obtain ⟨least, read, value⟩ := ih low rest
      exact ⟨least, by simpa [member, bind, Except.bind] using read, by simpa [member] using value⟩

theorem lower_snapshot (low : UInt32) (h : point < s.points.size) :
    ∃ s', lower point low s = .ok () s' ∧ s'.points.size = s.points.size ∧
      s'.snapshot = s.snapshot.lower point low.toNat := by
  rw [lower, bind_of_ok (stateAt_of_lt h), setState_of_lt h]
  refine ⟨_, rfl, Search.size_put _, ?_⟩
  rw [Search.snapshot_put h, Search.put_low, toNat_min]
  rfl

theorem Snapshot.unload_unload (σ : Snapshot) (first second between below : List Nat) :
    (σ.unload first between).unload second below = σ.unload (first ++ second) below := by
  simp only [Snapshot.unload, Snapshot.mk.injEq, and_true, true_and]
  constructor <;> funext other <;> simp [Bool.and_assoc, Bool.or_assoc]

/-- The search with a point taken off the trail, of which the given part remains. -/
def Search.takeOff (s : Search) (point : Nat) (trail : List UInt32) : Search :=
  { s.put point { s.stateOf point with onTrail := false, listed := true } with trail }

@[simp] theorem Search.size_takeOff (trail : List UInt32) :
    (s.takeOff point trail).points.size = s.points.size :=
  Search.size_put _

theorem Search.snapshot_takeOff (h : point < s.points.size) (trail : List UInt32) :
    (s.takeOff point trail).snapshot = s.snapshot.unload [point] (trail.map UInt32.toNat) := by
  have put := Search.snapshot_put h { s.stateOf point with onTrail := false, listed := true }
  rw [Search.put_listed] at put
  have onTrail : update s.snapshot.onTrail point false =
      fun other => s.snapshot.onTrail other && other ∉ [point] := by
    funext other
    by_cases same : other = point <;> simp [same]
  have listed : update s.snapshot.listed point true =
      fun other => s.snapshot.listed other || other ∈ [point] := by
    funext other
    by_cases same : other = point <;> simp [same]
  rw [onTrail, listed] at put
  exact congrArg (fun σ : Snapshot => { σ with trail := trail.map UInt32.toNat }) put

theorem unwind_cons {root : Nat} {top : UInt32} {trail : List UInt32} {taken : Array Nat}
    (h : top.toNat < s.points.size) (unlisted : ¬ s.snapshot.listed top.toNat) :
    unwind root (top :: trail) taken s =
      if top.toNat = root then .ok (taken.push top.toNat) (s.takeOff top.toNat trail)
      else unwind root trail (taken.push top.toNat) (s.takeOff top.toNat trail) := by
  have fresh : (s.stateOf top.toNat).listed = false := by simpa [Search.snapshot] using unlisted
  rw [unwind, bind_of_ok (stateAt_of_lt h), bind_of_ok (setState_of_lt h _)]
  have cut : (modify fun s : Search => { s with trail } : Attempt Search PUnit)
      (s.put top.toNat { s.stateOf top.toNat with onTrail := false, listed := true }) =
        .ok () (s.takeOff top.toNat trail) := rfl
  rw [bind_of_ok cut]
  simp only [fresh, Bool.false_eq_true, if_false]
  split <;> rfl

/-- The points down to a root come off the trail in order, if none of them was put out before. -/
theorem unwind_snapshot {root : Nat} {trail : List UInt32} (taken : Array Nat)
    {above below : List Nat} (shape : trail.map UInt32.toNat = above ++ root :: below)
    (distinct : (above ++ [root]).Nodup)
    (inside : ∀ p ∈ above ++ [root], p < s.points.size)
    (unlisted : ∀ p ∈ above ++ [root], ¬ s.snapshot.listed p) :
    ∃ s', unwind root trail taken s = .ok (taken ++ (above ++ [root])) s' ∧
      s'.points.size = s.points.size ∧ s'.snapshot = s.snapshot.unload (above ++ [root]) below := by
  induction above generalizing trail taken s with
  | nil =>
    obtain ⟨top, rest, rfl, rfl, rfl⟩ := List.map_eq_cons_iff.1 shape
    have size : top.toNat < s.points.size := inside _ (by simp)
    rw [unwind_cons size (unlisted _ (by simp)), if_pos rfl]
    refine ⟨s.takeOff top.toNat rest, by simp, Search.size_takeOff rest, ?_⟩
    exact Search.snapshot_takeOff size rest
  | cons first above ih =>
    obtain ⟨top, rest, rfl, rfl, tail⟩ := List.map_eq_cons_iff.1 shape
    have size : top.toNat < s.points.size := inside _ (by simp)
    rw [List.cons_append, List.nodup_cons] at distinct
    have other : top.toNat ≠ root := fun same => distinct.1 (by simp [same])
    have snapshot := Search.snapshot_takeOff size rest
    obtain ⟨s', ran, sized, shown⟩ := ih (s := s.takeOff top.toNat rest)
      (taken.push top.toNat) tail distinct.2
      (fun p mem => by simpa using inside p (List.mem_cons_of_mem _ mem))
      (fun p mem => by
        have apart : p ≠ top.toNat := fun same => distinct.1 (same ▸ mem)
        simpa [snapshot, Snapshot.unload, apart] using unlisted p (List.mem_cons_of_mem _ mem))
    rw [unwind_cons size (unlisted _ (by simp)), if_neg other]
    refine ⟨s', by simpa using ran, sized.trans (Search.size_takeOff rest), ?_⟩
    rw [shown, snapshot, Snapshot.unload_unload]
    rfl

theorem complete_snapshot (root : Nat) {above below : List Nat}
    (shape : s.snapshot.trail = above ++ root :: below) (distinct : (above ++ [root]).Nodup)
    (inside : ∀ p ∈ above ++ [root], p < s.points.size)
    (unlisted : ∀ p ∈ above ++ [root], ¬ s.snapshot.listed p) :
    ∃ s', complete root s = .ok () s' ∧ s'.points.size = s.points.size ∧
      s'.snapshot = s.snapshot.complete root := by
  obtain ⟨t, ran, sized, shown⟩ := unwind_snapshot #[] shape distinct inside unlisted
  have got : (get : Attempt Search Search) s = .ok s s := rfl
  rw [complete, bind_of_ok got, bind_of_ok ran]
  refine ⟨_, rfl, sized, ?_⟩
  have taken : (#[] : Array Nat) ++ (above ++ [root]) = (above ++ [root]).toArray := by simp
  have components : t.components.toList = s.components.toList := congrArg Snapshot.components shown
  have reports : t.reports.toList = s.reports.toList := congrArg Snapshot.reports shown
  rw [Snapshot.complete, shape, unstack_append below distinct, ← shown, taken]
  simp only [Search.snapshot, Snapshot.closingEvent, Snapshot.mk.injEq, List.size_toArray,
    Array.toList_push, components, reports, and_true]
  exact ⟨rfl, rfl, rfl, rfl, rfl, rfl⟩

/-- What a point reaches is put down, the point is popped, and its parent is told. -/
theorem retire_snapshot (low : UInt32) (next : Attempt Search Unit) (h : point < s.points.size)
    (parent : s.snapshot.parent point < s.points.size) :
    ∃ t, (do
        setState point { s.stateOf point with low }
        modify fun s : Search => { s with path := s.path.tail }
        unless (s.stateOf point).parent.toNat = point do lower (s.stateOf point).parent.toNat low
        next) s = next t ∧
      t.points.size = s.points.size ∧ t.snapshot = s.snapshot.retire point low.toNat := by
  let popped : Search := { s.put point { s.stateOf point with low } with path := s.path.tail }
  have pop : (modify fun s : Search => { s with path := s.path.tail } : Attempt Search PUnit)
      (s.put point { s.stateOf point with low }) = .ok () popped := rfl
  have size : popped.points.size = s.points.size := Search.size_put _
  have shown : popped.snapshot = { s.snapshot with
      low := update s.snapshot.low point low.toNat, path := s.snapshot.path.tail } := by
    have put := Search.snapshot_put h { s.stateOf point with low }
    rw [Search.put_low] at put
    have tail : popped.path.map UInt32.toNat = s.snapshot.path.tail := List.map_tail ..
    rw [← tail]
    exact congrArg (fun σ : Snapshot => { σ with path := popped.path.map UInt32.toNat }) put
  rw [bind_of_ok (setState_of_lt h _), bind_of_ok pop, Snapshot.retire]
  by_cases root : (s.stateOf point).parent.toNat = point
  · have root' : s.snapshot.parent point = point := root
    rw [if_pos root']
    exact ⟨popped, by simp [root], size, shown⟩
  · have root' : ¬ s.snapshot.parent point = point := root
    obtain ⟨t, ran, sized, told⟩ := lower_snapshot low (parent.trans_eq size.symm)
    rw [if_neg root']
    refine ⟨t, ?_, sized.trans size, by rw [told, shown]⟩
    simp only [root, if_false]
    exact bind_of_ok ran

/-- Closing a point retires it, and puts out its component if it is a root. -/
theorem close_eq {selection : Selection} {row : List Nat} (h : point < s.points.size)
    (parent : s.snapshot.parent point < s.points.size)
    (row_inside : ∀ w ∈ row, selection.isMember w → w < s.points.size) :
    ∃ (low : UInt32) (t : Search),
      low.toNat = s.snapshot.lowest selection row (s.snapshot.low point) ∧
      close selection point row s =
        (if low = (s.stateOf point).index then complete point else pure ()) t ∧
      t.points.size = s.points.size ∧ t.snapshot = s.snapshot.retire point low.toNat := by
  have got : (get : Attempt Search Search) s = .ok s s := rfl
  obtain ⟨low, read, value⟩ := lowest_snapshot (s.stateOf point).low row_inside
  have checked : check (lowest selection s.points row (s.stateOf point).low) s = .ok low s := by
    rw [read]
    rfl
  rw [close, bind_of_ok (stateAt_of_lt h), bind_of_ok got, bind_of_ok checked]
  obtain ⟨t, ran, size, shown⟩ := retire_snapshot low
    (if low = (s.stateOf point).index then complete point else pure ()) h parent
  exact ⟨low, t, value, ran, size, shown⟩

theorem close_snapshot {selection : Selection} {row : List Nat} {above below : List Nat}
    (h : point < s.points.size) (parent : s.snapshot.parent point < s.points.size)
    (row_inside : ∀ w ∈ row, selection.isMember w → w < s.points.size)
    (shape : s.snapshot.trail = above ++ point :: below) (distinct : (above ++ [point]).Nodup)
    (inside : ∀ p ∈ above ++ [point], p < s.points.size)
    (unlisted : ∀ p ∈ above ++ [point], ¬ s.snapshot.listed p) :
    ∃ s', close selection point row s = .ok () s' ∧ s'.points.size = s.points.size ∧
      s'.snapshot = s.snapshot.close selection point row := by
  obtain ⟨low, t, value, ran, size, shown⟩ := close_eq h parent row_inside
  have root : low.toNat = s.snapshot.index point ↔ low = (s.stateOf point).index :=
    UInt32.toNat_inj
  rw [ran, Snapshot.close, ← value]
  by_cases isRoot : low = (s.stateOf point).index
  · rw [if_pos isRoot, if_pos (root.2 isRoot), ← shown]
    obtain ⟨s', done, sized, shown'⟩ := complete_snapshot (s := t) point
      (by rw [shown, Snapshot.retire_trail, shape]) distinct
      (fun p mem => (inside p mem).trans_eq size.symm)
      (fun p mem => by rw [shown, Snapshot.retire_listed]; exact unlisted p mem)
    exact ⟨s', done, sized.trans size, shown'⟩
  · rw [if_neg isRoot, if_neg (isRoot ∘ root.1)]
    exact ⟨t, rfl, size, shown⟩

end Navigability.Component
