import Navigability.Proofs.Attempt
import Navigability.Reach.Coverage

/-!
# Traversals in storage that was used

Storage is ready for a traversal when no mark has a stamp above the current one. Then the next stamp
is on no mark, also where the stamps are counted anew, and the traversal starts with no point
visited whatever the marks are. From there on a traversal looks at nothing but at which points it
has visited and at its queue, so it runs in parallel in any two storages of the same size that are
ready, and leaves them ready.

## Main definitions

* `Buffers.Ready n`: storage for `n` points that is ready for a traversal
* `Buffers.Visited p`: whether the current traversal has visited `p`
* `Alike n`: two ready storages with the same visited points and the same queue

## Main results

* `restart_ready`: a traversal starts with nothing visited
* `traverse_parallel`: a traversal runs in parallel in any two ready storages
-/

namespace Navigability.Reach

open Attempt

namespace Buffers

/-- Storage for `n` points in which no mark has a stamp above the current one. -/
structure Ready (n : Nat) (b : Buffers) : Prop where
  size : b.marks.size = n
  stamp_le : ∀ p (h : p < b.marks.size), b.marks[p].stamp ≤ b.stamp

/-- Whether the current traversal has visited a point. -/
def Visited (b : Buffers) (p : Nat) : Prop := ∃ h : p < b.marks.size, b.marks[p].stamp = b.stamp

end Buffers

/-- Two ready storages in which the current traversals have visited the same points in the same
order. -/
structure Alike (n : Nat) (b c : Buffers) : Prop where
  ready : b.Ready n
  ready' : c.Ready n
  queue : b.queue = c.queue
  visited_iff : ∀ p, b.Visited p ↔ c.Visited p

variable {n : Nat} {b c : Buffers}

/-- Blank storage is ready. -/
theorem Buffers.ready_blank (n : Nat) (degrees : Array UInt32) :
    Buffers.Ready n { marks := Array.replicate n {}, degrees } where
  size := Array.size_replicate
  stamp_le p h := by simp

/-! ## The operations of a traversal -/

/-- The next stamp is one more, or one if there is no more. -/
theorem restart_stamp (b : Buffers) : ∃ c, restart b = .ok () c ∧ c.stamp.toNat =
    if b.stamp.toNat + 1 = UInt32.size then 1 else b.stamp.toNat + 1 := by
  refine ⟨_, rfl, ?_⟩
  have value := UInt32.toNat_add b.stamp 1
  have bound := b.stamp.toNat_lt
  have one : (1 : UInt32).toNat = 1 := rfl
  have zero : (0 : UInt32).toNat = 0 := rfl
  have last : b.stamp + 1 = 0 ↔ b.stamp.toNat + 1 = UInt32.size := by
    rw [← UInt32.toNat_inj, value, one, zero, UInt32.size]
    omega
  by_cases h : b.stamp + 1 = 0
  · simp only [if_pos h, if_pos (last.1 h), one]
  · simp only [if_neg h, if_neg (mt last.2 h)]
    rw [value, one]
    exact Nat.mod_eq_of_lt (Nat.lt_of_le_of_ne bound (mt last.2 h))

/-- A traversal starts with nothing visited, whatever the marks are. If the stamps are used up all
marks are erased, and otherwise the next stamp is above all others. -/
theorem restart_ready (ready : b.Ready n) :
    ∃ b', restart b = .ok () b' ∧ b'.Ready n ∧ b'.queue = #[] ∧ ∀ p, ¬ b'.Visited p := by
  refine ⟨_, rfl, ?_⟩
  by_cases last : b.stamp + 1 = 0
  · simp only [if_pos last]
    refine ⟨⟨?_, ?_⟩, trivial, ?_⟩
    · simpa using ready.size
    · intro p h
      simp
    · rintro p ⟨h, same⟩
      simp at same
  · simp only [if_neg last]
    have above : b.stamp.toNat < (b.stamp + 1).toNat := by
      have bound := b.stamp.toNat_lt
      have nonzero : (b.stamp + 1).toNat ≠ 0 := fun zero => last (UInt32.toNat_inj.1 zero)
      rw [UInt32.toNat_add] at nonzero ⊢
      have one : (1 : UInt32).toNat = 1 := rfl
      rw [one] at nonzero ⊢
      omega
    refine ⟨⟨ready.size, ?_⟩, trivial, ?_⟩
    · intro p h
      have le := UInt32.le_iff_toNat_le.1 (ready.stamp_le p h)
      exact UInt32.le_iff_toNat_le.2 (Nat.le_trans le (Nat.le_of_lt above))
    · rintro p ⟨h, same⟩
      have le := UInt32.le_iff_toNat_le.1 (ready.stamp_le p h)
      have same : b.marks[p].stamp.toNat = (b.stamp + 1).toNat := congrArg _ same
      omega

theorem visit_of_lt {p : Nat} (h : p < b.marks.size) : visit p b =
    if b.marks[p].stamp = b.stamp then .ok false b
    else .ok true { b with marks := b.marks.set p { b.marks[p] with stamp := b.stamp } } := by
  rw [visit, dif_pos h]

/-- Visiting a point marks it and no other. -/
theorem visit_marks {p : Nat} (h : p < b.marks.size) {marked : Buffers}
    (set : marked = { b with marks := b.marks.set p { b.marks[p] with stamp := b.stamp } })
    (ready : b.Ready n) :
    marked.Ready n ∧ ∀ q, marked.Visited q ↔ q = p ∨ b.Visited q := by
  subst set
  refine ⟨⟨by simpa using ready.size, ?_⟩, ?_⟩
  · intro q hq
    simp only [Array.getElem_set]
    split
    · exact Nat.le_refl _
    · exact ready.stamp_le q (by simpa using hq)
  · intro q
    simp only [Buffers.Visited, Array.getElem_set, Array.size_set]
    by_cases same : p = q
    · simp [same, same ▸ h]
    · simp [same, Ne.symm same]

theorem visit_parallel (p : Nat) : Parallel (Alike n) (Alike n) (visit p) (visit p) := by
  intro b c alike
  have sizes : b.marks.size = c.marks.size := alike.ready.size.trans alike.ready'.size.symm
  by_cases h : p < b.marks.size
  · have h' : p < c.marks.size := sizes ▸ h
    have visited : b.marks[p].stamp = b.stamp ↔ c.marks[p].stamp = c.stamp := by
      have := alike.visited_iff p
      simpa only [Buffers.Visited, h, h', exists_true_left] using this
    rw [visit_of_lt h, visit_of_lt h']
    by_cases before : b.marks[p].stamp = b.stamp
    · rw [if_pos before, if_pos (visited.1 before)]
      exact .ok alike
    · rw [if_neg before, if_neg (before ∘ visited.2)]
      obtain ⟨ready, marked⟩ := visit_marks h rfl alike.ready
      obtain ⟨ready', marked'⟩ := visit_marks h' rfl alike.ready'
      refine .ok ⟨ready, ready', alike.queue, fun q => ?_⟩
      rw [marked, marked', alike.visited_iff]
  · rw [visit, dif_neg h, visit, dif_neg (sizes ▸ h), sizes]
    exact .error alike

theorem enqueue_parallel (p : Nat) (level : UInt32) :
    Parallel (Alike n) (Alike n) (enqueue p level) (enqueue p level) := by
  intro b c alike
  refine .ok ⟨⟨alike.ready.size, alike.ready.stamp_le⟩, ⟨alike.ready'.size, alike.ready'.stamp_le⟩,
    ?_, alike.visited_iff⟩
  show b.queue.push _ = c.queue.push _
  rw [alike.queue]

/-! ## Traversals -/

section Traversal

variable {γ : Type} [Adjacency γ] (selection : Selection) (graph : γ)

theorem expand_parallel (point : Nat) (level : UInt32) (row : List Nat) :
    Parallel (Alike n) (Alike n) (expand selection point level row)
      (expand selection point level row) := by
  induction row with
  | nil => exact .pure ()
  | cons neighbor row ih =>
    unfold expand
    refine .bind (.check _) fun admitted => ?_
    cases admitted with
    | false => exact ih
    | true =>
      refine .bind (visit_parallel neighbor) fun fresh => ?_
      cases fresh with
      | false => exact ih
      | true =>
        refine .bind (.check _) fun next => ?_
        exact .bind (enqueue_parallel neighbor next) fun _ => ih

/-- The queue decides how a sweep goes on, and it is the same on both sides. The induction is on the
bound on the points to come that makes a sweep end. -/
theorem sweep_parallel (position : Nat) (deepest : UInt32) :
    Parallel (Alike n) (Alike n) (sweep selection graph position deepest)
      (sweep selection graph position deepest) := by
  intro b c alike
  induction bound : b.unvisited + (b.queue.size - position) using Nat.strongRecOn
    generalizing b c position deepest with
  | ind bound ih =>
    rcases Nat.lt_or_ge position b.queue.size with more | done
    · have more' : position < c.queue.size := alike.queue ▸ more
      have entry : c.queue[position] = b.queue[position] := by simp only [alike.queue]
      rw [sweep_of_lt more, sweep_of_lt more', entry]
      have same := expand_parallel selection b.queue[position].point.toNat
        b.queue[position].level (Adjacency.row graph b.queue[position].point.toNat) b c alike
      generalize ran : expand selection b.queue[position].point.toNat b.queue[position].level
        (Adjacency.row graph b.queue[position].point.toNat) b = r at same
      generalize ran' : expand selection b.queue[position].point.toNat b.queue[position].level
        (Adjacency.row graph b.queue[position].point.toNat) c = r' at same
      cases same with
      | ok alike' =>
        obtain ⟨-, grown, sum⟩ := expand_spec ran
        rw [bind_of_ok ran, bind_of_ok ran']
        exact ih _ (by omega) (position + 1) _ _ _ alike' rfl
      | error alike' =>
        rw [bind_of_error ran, bind_of_error ran']
        exact .error alike'
    · rw [sweep_of_le done, sweep_of_le (alike.queue ▸ done)]
      exact .ok alike

/-- **A traversal runs in parallel** in any two ready storages of the same size. -/
theorem traverse_parallel (start : Nat) :
    Parallel (fun b c => b.Ready n ∧ c.Ready n) (Alike n) (traverse selection graph start)
      (traverse selection graph start) := by
  refine .bind ?_ fun _ => .bind (visit_parallel start) fun _ =>
    .bind (enqueue_parallel start 0) fun _ => .bind (sweep_parallel selection graph 0 0) fun _ =>
      .pure _
  rintro b c ⟨ready, ready'⟩
  obtain ⟨b', ran, ready, queue, unvisited⟩ := restart_ready ready
  obtain ⟨c', ran', ready', queue', unvisited'⟩ := restart_ready ready'
  rw [ran, ran']
  refine .ok ⟨ready, ready', queue.trans queue'.symm, fun p => ?_⟩
  exact iff_of_false (unvisited p) (unvisited' p)

/-- A traversal leaves storage ready, also where it fails. -/
theorem traverse_keeps_ready (start : Nat) :
    Keeps (Buffers.Ready n) (traverse selection graph start) :=
  fun b ready => (traverse_parallel selection graph start b b ⟨ready, ready⟩).left.ready

end Traversal

end Navigability.Reach
