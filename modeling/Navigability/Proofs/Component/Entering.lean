import Navigability.Proofs.Component.Invariant

/-!
# Entering a point keeps the invariant

A point is entered from the top of the path by a step, or from nowhere when the path is empty. It
gets the greatest number, so it guards nothing but itself, and what was known about other points
stays true.

## Main results

* `Snapshot.Invariant.enter`: the invariant holds again when a point was entered
* `Snapshot.Invariant.readTo`: it still holds when a row is read on past settled entries
-/

namespace Navigability.Component.Snapshot

open Function (update)

variable {γ : Type} [Adjacency γ] {selection : Selection} {graph : γ} {σ : Snapshot}
  {w parent p : Nat}

theorem enter_index_self : (σ.enter w parent).index w = σ.lastIndex + 1 :=
  Function.update_self ..

theorem enter_index_of_ne (h : p ≠ w) : (σ.enter w parent).index p = σ.index p :=
  Function.update_of_ne h _ _

theorem enter_low_self : (σ.enter w parent).low w = σ.lastIndex + 1 :=
  Function.update_self ..

theorem enter_low_of_ne (h : p ≠ w) : (σ.enter w parent).low p = σ.low p :=
  Function.update_of_ne h _ _

/-- What is settled stays settled. -/
theorem Settled.enter (settled : σ.Settled selection p) :
    (σ.enter w parent).Settled selection p := by
  refine ⟨settled.1, fun member => ?_⟩
  by_cases same : p = w
  · rw [same, enter_index_self]
    exact Nat.succ_ne_zero _
  · rw [enter_index_of_ne same]
    exact settled.2 member

/-- The entries of a row up to the one that is entered are settled from then on. -/
theorem settled_enter {row front back : List Nat} (shape : row = front ++ w :: back)
    (settled : ∀ x ∈ front, σ.Settled selection x) (member : selection.isMember w) :
    ∀ x ∈ row.take (front.length + 1), (σ.enter w parent).Settled selection x := by
  intro x read
  rw [shape, List.take_append, List.take_of_length_le (Nat.le_succ _),
    Nat.add_sub_cancel_left, List.take_succ_cons, List.take_zero, List.mem_append,
    List.mem_singleton] at read
  rcases read with before | same
  · exact (settled x before).enter
  · refine ⟨same ▸ Selection.lt_of_isMember member, fun _ => ?_⟩
    rw [same, enter_index_self]
    exact Nat.succ_ne_zero _

section Fresh

variable (book : σ.Bookkeeping selection graph) (fresh : σ.index w = 0) {q : Nat}

include book fresh

/-- A point that is not visited is not on the trail. -/
theorem Bookkeeping.ne_of_trail (trail : q ∈ σ.trail) : q ≠ w := by
  rintro rfl
  exact book.visited_of_trail trail fresh

/-- Entering a point renumbers nothing on the trail. -/
theorem Bookkeeping.enter_index_trail (trail : q ∈ σ.trail) :
    (σ.enter w parent).index q = σ.index q :=
  enter_index_of_ne (book.ne_of_trail fresh trail)

/-- The new number is above all numbers on the trail. -/
theorem Bookkeeping.enter_index_lt (trail : q ∈ σ.trail) :
    (σ.enter w parent).index q < (σ.enter w parent).index w := by
  rw [book.enter_index_trail fresh trail, enter_index_self]
  exact Nat.lt_succ_of_le (book.index_le q)

end Fresh

theorem Bookkeeping.enter (book : σ.Bookkeeping selection graph) (member : selection.isMember w)
    (fresh : σ.index w = 0)
    (origin : parent = σ.path.headD w ∧ ∀ v ∈ σ.path.head?, selection.Step graph v w) :
    (σ.enter w parent).Bookkeeping selection graph where
  visited_iff p := by
    by_cases same : p = w
    · subst same
      simp [Snapshot.enter]
    · rw [enter_index_of_ne same, book.visited_iff]
      simp [Snapshot.enter, same]
  distinct := by
    show (w :: (σ.trail ++ σ.components.flatten)).Nodup
    refine List.nodup_cons.2 ⟨?_, book.distinct⟩
    rw [List.mem_append, ← book.visited_iff]
    exact not_not_intro fresh
  member p visited := by
    by_cases same : p = w
    · exact same ▸ member
    · rw [enter_index_of_ne same] at visited
      exact book.member p visited
  count := by
    show σ.lastIndex + 1 = (σ.trail ++ σ.components.flatten).length + 1
    rw [← book.count]
  index_le p := by
    by_cases same : p = w
    · rw [same, enter_index_self]
      exact Nat.le_refl _
    · rw [enter_index_of_ne same]
      exact Nat.le_succ_of_le (book.index_le p)
  index_injective p q visited same := by
    have new : ∀ r, r ≠ w → σ.index r ≠ σ.lastIndex + 1 := fun r _ =>
      Nat.ne_of_lt (Nat.lt_succ_of_le (book.index_le r))
    by_cases hp : p = w <;> by_cases hq : q = w
    · rw [hp, hq]
    · rw [hp, enter_index_self, enter_index_of_ne hq] at same
      exact absurd same.symm (new q hq)
    · rw [hq, enter_index_self, enter_index_of_ne hp] at same
      exact absurd same (new p hp)
    · rw [enter_index_of_ne hp] at visited
      rw [enter_index_of_ne hp, enter_index_of_ne hq] at same
      exact book.index_injective p q visited same
  onTrail_iff p := by
    by_cases same : p = w
    · simp [same, Snapshot.enter]
    · simpa [same, Snapshot.enter] using book.onTrail_iff p
  listed_iff := book.listed_iff
  descending := by
    apply List.pairwise_cons.2
    constructor
    · intro q mem
      exact book.enter_index_lt fresh mem
    · refine book.descending.imp_of_mem fun hp hq lt => ?_
      rw [book.enter_index_trail fresh hp, book.enter_index_trail fresh hq]
      exact lt
  path_sublist := book.path_sublist.cons_cons w
  linked v below suffix := by
    rcases List.suffix_cons_iff.1 suffix with whole | suffix
    · obtain ⟨rfl, rfl⟩ := List.cons.inj whole
      refine ⟨?_, origin.2⟩
      exact (Function.update_self ..).trans origin.1
    · have onPath : v ∈ σ.path := suffix.subset List.mem_cons_self
      have other := book.ne_of_trail fresh (book.trail_of_path onPath)
      obtain ⟨told, step⟩ := book.linked v below suffix
      exact ⟨(Function.update_of_ne other _ _).trans told, step⟩
  position_le v mem := by
    by_cases same : v = w
    · subst same
      simp [Snapshot.enter]
    · have mem : v ∈ σ.path := (List.mem_cons.1 mem).resolve_left same
      simpa [Snapshot.enter, same] using book.position_le v mem
  read_settled v mem x read := by
    by_cases same : v = w
    · subst same
      simp [Snapshot.enter] at read
    · have mem : v ∈ σ.path := (List.mem_cons.1 mem).resolve_left same
      refine Settled.enter (book.read_settled v mem x ?_)
      simpa [Snapshot.enter, same] using read

/-- Every point of the path has a path to a point entered from its top: down to the top, and one
step on. -/
theorem Bookkeeping.reaches_new (book : σ.Bookkeeping selection graph)
    (links : σ.LowLinks selection graph)
    (origin : ∀ v ∈ σ.path.head?, selection.Step graph v w) {v : Nat} (h : v ∈ σ.path) :
    selection.Reaches graph v w := by
  cases path : σ.path with
  | nil => simp [path] at h
  | cons top below =>
    have trail := book.trail_of_path (top_mem path)
    have down := links.descends v h top trail (book.le_top path h)
    exact down.tail (origin top (by simp [path]))

theorem LowLinks.enter (links : σ.LowLinks selection graph) (book : σ.Bookkeeping selection graph)
    (member : selection.isMember w) (fresh : σ.index w = 0)
    (origin : ∀ v ∈ σ.path.head?, selection.Step graph v w) :
    (σ.enter w parent).LowLinks selection graph := by
  have old : ∀ q ∈ σ.trail, (σ.enter w parent).index q = σ.index q :=
    fun q trail => book.enter_index_trail fresh trail
  have above : ∀ q ∈ σ.trail, (σ.enter w parent).index q < (σ.enter w parent).index w :=
    fun q trail => book.enter_index_lt fresh trail
  constructor
  case closed_settled =>
    intro v visited away x mem
    have same : v ≠ w := fun same => away (by simp [Snapshot.enter, same])
    rw [enter_index_of_ne same] at visited
    exact (links.closed_settled v visited (fun h => away (List.mem_cons_of_mem _ h)) x mem).enter
  case descends =>
    intro v inPath x inTrail le
    -- Nothing on the trail has a number as great as the new one, and the new point is reached
    -- from the whole path.
    rcases List.mem_cons.1 inPath with new | path <;>
      rcases List.mem_cons.1 inTrail with new' | trail
    · rw [new, new']
    · have lt := above x trail
      rw [new] at le
      omega
    · exact new' ▸ book.reaches_new links origin path
    · rw [old x trail, old v (book.trail_of_path path)] at le
      exact links.descends v path x trail le
  case low_le =>
    intro v path
    rcases List.mem_cons.1 path with rfl | path
    · rw [enter_low_self, enter_index_self]
    · have trail := book.trail_of_path path
      rw [enter_low_of_ne (book.ne_of_trail fresh trail), old v trail]
      exact links.low_le v path
  case low_attained =>
    intro v path
    rcases List.mem_cons.1 path with rfl | path
    · exact ⟨v, List.mem_cons_self, by rw [enter_low_self, enter_index_self], .refl⟩
    · obtain ⟨z, trail, attained, reach⟩ := links.low_attained v path
      refine ⟨z, List.mem_cons_of_mem _ trail, ?_, reach⟩
      have other := book.ne_of_trail fresh (book.trail_of_path path)
      rw [old z trail, enter_low_of_ne other, attained]
  case low_bound =>
    intro x trail away z ztrail step v guard
    have same : x ≠ w := fun same => away (by simp [Snapshot.enter, same])
    have trail : x ∈ σ.trail := (List.mem_cons.1 trail).resolve_left same
    have away : x ∉ σ.path := fun h => away (List.mem_cons_of_mem _ h)
    -- The entries of a closed point were visited before, so the step does not lead to `w`.
    have visited : z ≠ w := fun same =>
      (links.closed_settled x (book.visited_of_trail trail) away z step.neighbor).2 step.target
        (same ▸ fresh)
    have ztrail : z ∈ σ.trail := (List.mem_cons.1 ztrail).resolve_left visited
    -- Nor is it the guard, since it was entered after `x`.
    have guard_ne : v ≠ w := by
      intro same
      have lt := above x trail
      have le := guard.le
      rw [same] at le
      omega
    have path : v ∈ σ.path := (List.mem_cons.1 guard.mem).resolve_left guard_ne
    rw [enter_low_of_ne guard_ne, old z ztrail]
    refine links.low_bound x trail away z ztrail step v ⟨path, ?_, fun u mem le => ?_⟩
    · simpa [old x trail, old v (book.trail_of_path path)] using guard.le
    · have := guard.greatest u (List.mem_cons_of_mem _ mem)
      rw [old x trail, old v (book.trail_of_path path), old u (book.trail_of_path mem)] at this
      exact this le

theorem Invariant.enter (inv : σ.Invariant selection graph) (member : selection.isMember w)
    (fresh : σ.index w = 0)
    (origin : parent = σ.path.headD w ∧ ∀ v ∈ σ.path.head?, selection.Step graph v w) :
    (σ.enter w parent).Invariant selection graph where
  toBookkeeping := inv.toBookkeeping.enter member fresh origin
  toLowLinks := inv.toLowLinks.enter inv.toBookkeeping member fresh origin.2
  toOutput := { inv.toOutput with }
  supported x trail := by
    rcases List.mem_cons.1 trail with rfl | trail
    · exact ⟨x, List.mem_cons_self, Nat.le_refl _, .refl⟩
    · obtain ⟨y, path, le, reach⟩ := inv.supported x trail
      refine ⟨y, List.mem_cons_of_mem _ path, ?_, reach⟩
      rw [inv.enter_index_trail fresh trail, inv.enter_index_trail fresh (inv.trail_of_path path)]
      exact le

/-! ## Reading on -/

theorem readTo_position_self {v stop : Nat} :
    (σ.readTo v stop).position v = stop % UInt32.size :=
  Function.update_self ..

theorem readTo_position_of_ne {u v stop : Nat} (h : u ≠ v) :
    (σ.readTo v stop).position u = σ.position u :=
  Function.update_of_ne h _ _

theorem Bookkeeping.readTo (book : σ.Bookkeeping selection graph) {v stop : Nat}
    (le : stop ≤ (Adjacency.row graph v).length)
    (settled : ∀ x ∈ (Adjacency.row graph v).take stop, σ.Settled selection x) :
    (σ.readTo v stop).Bookkeeping selection graph where
  __ := book
  position_le u mem := by
    by_cases same : u = v
    · subst same
      rw [readTo_position_self]
      exact (Nat.mod_le ..).trans le
    · rw [readTo_position_of_ne same]
      exact book.position_le u mem
  read_settled u mem x read := by
    by_cases same : u = v
    · subst same
      rw [readTo_position_self] at read
      exact settled x ((List.take_prefix_take_left (Nat.mod_le ..)).subset read)
    · rw [readTo_position_of_ne same] at read
      exact book.read_settled u mem x read

theorem Invariant.readTo (inv : σ.Invariant selection graph) {v stop : Nat}
    (le : stop ≤ (Adjacency.row graph v).length)
    (settled : ∀ x ∈ (Adjacency.row graph v).take stop, σ.Settled selection x) :
    (σ.readTo v stop).Invariant selection graph where
  toBookkeeping := inv.toBookkeeping.readTo le settled
  toLowLinks := { inv.toLowLinks with
    low_bound := fun x trail away z ztrail step v guard =>
      inv.low_bound x trail away z ztrail step v ⟨guard.mem, guard.le, guard.greatest⟩ }
  toOutput := { inv.toOutput with }
  supported := inv.supported

end Navigability.Component.Snapshot
