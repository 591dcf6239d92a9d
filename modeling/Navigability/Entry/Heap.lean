/-!
# Leftist heaps

A heap gives access to its least element with respect to an order that the caller supplies. It is
a tree in which no element stands above a lesser one; every node keeps the length of its right
spine, and the longer spine is on the left. Two heaps are merged along their right spines, and
insertion and removal of the least element are merges.

## Main definitions

* `Heap.merge`, `Heap.insert`: the operations
* `Heap.elements`: the elements, in no particular order

## Main results

* `Heap.elements_merge`, `Heap.elements_insert`: the operations keep all elements
-/

namespace Navigability.Entry

/-- A leftist tree. -/
inductive Heap (α : Type) where
  | empty
  | node (rank : Nat) (top : α) (left right : Heap α)

namespace Heap

variable {α : Type}

/-- The length of the right spine. -/
def rank : Heap α → Nat
  | empty => 0
  | node rank .. => rank

/-- The elements of a heap. -/
def elements : Heap α → List α
  | empty => []
  | node _ top left right => top :: (left.elements ++ right.elements)

/-- A node with the longer spine on the left. -/
def balance (top : α) (a b : Heap α) : Heap α :=
  if b.rank ≤ a.rank then node (b.rank + 1) top a b else node (a.rank + 1) top b a

/-- Merge a node into a heap, given how to merge the right part of the node. -/
def mergeNode (le : α → α → Bool) (rank : Nat) (top : α) (left right : Heap α)
    (mergeRight : Heap α → Heap α) : Heap α → Heap α
  | empty => node rank top left right
  | node rank' top' left' right' =>
    if le top top' then balance top left (mergeRight (node rank' top' left' right'))
    else balance top' left' (mergeNode le rank top left right mergeRight right')

/-- The heap of the elements of two heaps. -/
def merge (le : α → α → Bool) : Heap α → Heap α → Heap α
  | empty => id
  | node rank top left right => mergeNode le rank top left right (merge le right)

/-- The heap with one more element. -/
def insert (le : α → α → Bool) (a : α) (heap : Heap α) : Heap α :=
  merge le (node 1 a empty empty) heap

theorem elements_balance (top : α) (a b : Heap α) :
    (balance top a b).elements.Perm (top :: (a.elements ++ b.elements)) := by
  rw [balance]
  split
  · exact .refl _
  · exact .cons _ List.perm_append_comm

/-- Merging a node keeps all elements: the lesser top stays on top, and the right part of its tree
takes the other tree. -/
theorem elements_mergeNode (le : α → α → Bool) (rank : Nat) (top : α) (left right : Heap α)
    {mergeRight : Heap α → Heap α}
    (right_spec : ∀ b, (mergeRight b).elements.Perm (right.elements ++ b.elements)) (b : Heap α) :
    (mergeNode le rank top left right mergeRight b).elements.Perm
      ((node rank top left right).elements ++ b.elements) := by
  induction b with
  | empty => simp [mergeNode, elements]
  | node rank' top' left' right' _ ih =>
    rw [mergeNode]
    split
    · refine (elements_balance ..).trans ?_
      simp only [elements, List.cons_append, List.append_assoc]
      exact .cons _ (.append_left _ (right_spec _))
    · refine (elements_balance ..).trans ?_
      refine (List.Perm.cons _ (List.Perm.append_left _ ih)).trans ?_
      simp only [elements]
      refine .trans ?_ List.perm_middle.symm
      refine .cons _ ?_
      rw [← List.append_assoc, ← List.append_assoc]
      exact .append_right _ List.perm_append_comm

theorem elements_merge (le : α → α → Bool) (a b : Heap α) :
    (merge le a b).elements.Perm (a.elements ++ b.elements) := by
  induction a generalizing b with
  | empty => exact .refl _
  | node rank top left right _ ih => exact elements_mergeNode le rank top left right ih b

theorem elements_insert (le : α → α → Bool) (a : α) (heap : Heap α) :
    (insert le a heap).elements.Perm (a :: heap.elements) := by
  simpa [insert, elements] using elements_merge le (node 1 a empty empty) heap

end Heap

end Navigability.Entry
