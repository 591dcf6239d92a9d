import Navigability.Proofs.Reach.Frontier
import Navigability.Proofs.Reach.Independence

/-!
# The queue of a traversal

A traversal in storage that is ready succeeds in all its accesses. Its queue holds the points that
are marked, each of them once, with their levels. Reading a row puts the members in it that are not
marked at the end of the queue, one level further on, as long as that level fits into 32 bits.

## Main definitions

* `Buffers.found`: the points in the queue, with their levels
* `Buffers.Sound n`: storage for `n` points in the middle of a traversal

## Main results

* `expand_sound`: what becomes of the queue when a point is expanded
* `begins`: a traversal begins with its start in the queue
-/

namespace Navigability.Reach

open Attempt

/-- The points in the queue, with their levels. -/
def Buffers.found (b : Buffers) : List (Nat × Nat) :=
  b.queue.toList.map fun visit => (visit.point.toNat, visit.level.toNat)

@[simp] theorem Buffers.length_found (b : Buffers) : b.found.length = b.queue.size := by
  simp [Buffers.found]

theorem Buffers.getElem_found {b : Buffers} {i : Nat} (h : i < b.queue.size)
    (inside : i < b.found.length) :
    b.found[i] = (b.queue[i].point.toNat, b.queue[i].level.toNat) := by
  simp [Buffers.found]

theorem Buffers.visited_eq (b : Buffers) : b.visited = b.found.map Prod.fst := by
  simp [Buffers.visited, Buffers.found, Function.comp_def]

/-- Storage for `n` points in the middle of a traversal: the points in the queue are those that are
marked, each of them once. -/
structure Buffers.Sound (n : Nat) (b : Buffers) : Prop where
  ready : b.Ready n
  small : n < pointLimit
  distinct : (b.found.map Prod.fst).Nodup
  visited_iff : ∀ p, b.Visited p ↔ p ∈ b.found.map Prod.fst

variable {n p : Nat} {b : Buffers}

namespace Buffers.Sound

variable (sound : b.Sound n)

include sound

theorem lt_of_mem (mem : p ∈ b.found.map Prod.fst) : p < n := by
  obtain ⟨inside, -⟩ := (sound.visited_iff p).2 mem
  exact inside.trans_eq sound.ready.size

/-- There is no more in the queue than there are points. -/
theorem length_le : b.found.length ≤ n := by
  have subset : b.found.map Prod.fst ⊆ List.range n := fun p mem =>
    List.mem_range.2 (sound.lt_of_mem mem)
  simpa using sound.distinct.length_le_of_subset subset

end Buffers.Sound

/-! ## Reading one entry -/

theorem visit_known (sound : b.Sound n) (known : p ∈ b.found.map Prod.fst) :
    visit p b = .ok false b := by
  obtain ⟨inside, marked⟩ := (sound.visited_iff p).2 known
  rw [visit_of_lt inside, if_pos marked]

theorem nextLevel_of_lt {level : UInt32} (room : level.toNat + 1 < UInt32.size) :
    ∃ next, nextLevel level = .ok next ∧ next.toNat = level.toNat + 1 := by
  have value : (level + 1).toNat = level.toNat + 1 := by
    rw [UInt32.toNat_add]
    exact Nat.mod_eq_of_lt room
  refine ⟨level + 1, ?_, value⟩
  rw [nextLevel, if_neg]
  intro zero
  rw [zero] at value
  exact absurd value.symm (Nat.succ_ne_zero _)

/-- A point that is not marked is marked and put at the end of the queue. -/
theorem visit_enqueue (sound : b.Sound n) (inside : p < n) (unknown : p ∉ b.found.map Prod.fst)
    (level : UInt32) : ∃ c d, visit p b = .ok true c ∧ enqueue p level c = .ok () d ∧ d.Sound n ∧
      d.found = b.found ++ [(p, level.toNat)] := by
  have h : p < b.marks.size := inside.trans_eq sound.ready.size.symm
  have unmarked : ¬ b.marks[p].stamp = b.stamp := fun marked =>
    unknown ((sound.visited_iff p).1 ⟨h, marked⟩)
  obtain ⟨ready, marks⟩ := visit_marks h rfl sound.ready
  refine ⟨_, _, by rw [visit_of_lt h, if_neg unmarked], rfl, ?_⟩
  have fits : p < UInt32.size := inside.trans (sound.small.trans (by decide))
  let c : Buffers := { b with
    marks := b.marks.set p { b.marks[p] with stamp := b.stamp }
    queue := b.queue.push { point := UInt32.ofNat p, level } }
  have found : c.found = b.found ++ [(p, level.toNat)] := by
    simp [c, Buffers.found, Nat.mod_eq_of_lt fits]
  refine ⟨⟨⟨ready.size, ready.stamp_le⟩, sound.small, ?_, fun q => ?_⟩, found⟩
  · show (c.found.map Prod.fst).Nodup
    rw [found, List.map_append, List.nodup_append]
    refine ⟨sound.distinct, by simp, ?_⟩
    rintro q old _ added rfl
    obtain rfl : q = p := by simpa using added
    exact unknown old
  · show _ ↔ q ∈ c.found.map Prod.fst
    rw [found, List.map_append, List.mem_append, ← sound.visited_iff]
    exact (marks q).trans (by simp [or_comm])

/-! ## Expanding a point -/

section Expand

variable {selection : Selection} {level : UInt32} {row : List Nat}

/-- Expanding along a row of points puts its fresh members at the end of the queue. -/
theorem expand_sound (point : Nat) (sound : b.Sound selection.pointCount)
    (inside : ∀ w ∈ row, w < selection.pointCount) (room : level.toNat + 1 < UInt32.size) :
    ∃ b' fresh, expand selection point level row b = .ok () b' ∧
      b'.Sound selection.pointCount ∧ Fresh selection row b.found fresh ∧
      b'.found = b.found ++ fresh.map fun w => (w, level.toNat + 1) := by
  induction row generalizing b with
  | nil => exact ⟨b, [], rfl, sound, .nil, by simp⟩
  | cons w row ih =>
    obtain ⟨here, inside⟩ := List.forall_mem_cons.1 inside
    have admitted : check (selection.admits point w) b = .ok (selection.isMember w) b := by
      rw [Selection.admits_of_lt point here]
      rfl
    rw [expand, bind_of_ok admitted]
    by_cases member : selection.isMember w
    · rw [if_pos member]
      by_cases known : w ∈ b.found.map Prod.fst
      · obtain ⟨b', fresh, ran, sound', new, found⟩ := ih sound inside
        refine ⟨b', fresh, ?_, sound', new.skip fun _ => known, found⟩
        rw [bind_of_ok (visit_known sound known)]
        exact ran
      · obtain ⟨next, stepped, value⟩ := nextLevel_of_lt room
        obtain ⟨c, d, visited, enqueued, sound', pushed⟩ := visit_enqueue sound here known next
        obtain ⟨b', fresh, ran, sound', new, found⟩ := ih sound' inside
        rw [pushed, value] at new found
        refine ⟨b', w :: fresh, ?_, sound', new.cons member known, by simpa using found⟩
        have checked : check (nextLevel level) c = .ok next c := by
          rw [stepped]
          rfl
        rw [bind_of_ok visited, if_pos rfl, bind_of_ok checked, bind_of_ok enqueued]
        exact ran
    · obtain ⟨b', fresh, ran, sound', new, found⟩ := ih sound inside
      refine ⟨b', fresh, ?_, sound', new.skip fun h => absurd h member, found⟩
      rw [if_neg member]
      exact ran

theorem expand_append (point : Nat) (level : UInt32) (front back : List Nat) :
    expand selection point level (front ++ back) =
      expand selection point level front >>= fun _ => expand selection point level back := by
  induction front with
  | nil => rfl
  | cons w front ih =>
    simp only [List.cons_append, expand, bind_assoc, ih]
    congr 1
    funext admitted
    cases admitted with
    | false => rfl
    | true =>
      simp only [if_true, bind_assoc]
      congr 1
      funext fresh
      cases fresh with
      | false => rfl
      | true => simp only [bind_assoc, if_true]

end Expand

/-! ## The start of a traversal -/

section Traversal

variable {γ : Type} [Adjacency γ] {selection : Selection} {start : Nat}

/-- A traversal begins with its start in the queue, at distance zero. -/
theorem begins (ready : b.Ready selection.pointCount) (small : selection.pointCount < pointLimit)
    (member : selection.isMember start) : ∃ c,
      (do restart; let _ ← visit start; enqueue start 0 : Attempt Buffers Unit) b = .ok () c ∧
        c.Sound selection.pointCount ∧ c.found = [(start, 0)] := by
  obtain ⟨c, restarted, ready', queue, unvisited⟩ := restart_ready ready
  have empty : c.found = [] := by simp [Buffers.found, queue]
  have sound : c.Sound selection.pointCount :=
    ⟨ready', small, by simp [empty], fun p => by simp [empty, unvisited p]⟩
  obtain ⟨d, e, visited, enqueued, sound', found⟩ :=
    visit_enqueue sound (Selection.lt_of_isMember member) (by simp [empty]) 0
  refine ⟨e, ?_, sound', by simpa [empty] using found⟩
  rw [bind_of_ok restarted, bind_of_ok visited, enqueued]

theorem traverse_eq (selection : Selection) (graph : γ) (start : Nat) :
    traverse selection graph start =
      (do restart; let _ ← visit start; enqueue start 0 : Attempt Buffers Unit) >>= fun _ =>
        sweep selection graph 0 0 >>= fun depth => pure depth.toNat := by
  simp only [traverse, bind_assoc]

end Traversal

end Navigability.Reach
