import Navigability.Entry.Heap

/-!
# Heaps are ordered

A heap is ordered when no element stands above a lesser one. Merging two ordered heaps gives an
ordered heap, and so do the operations that are merges.

## Main definitions

* `Heap.Ordered le`: every element is at most all that stand below it

## Main results

* `Heap.Ordered.merge`, `Heap.Ordered.insert`: the operations keep the order
-/

namespace Navigability.Entry.Heap

variable {α : Type} {le : α → α → Bool}

/-- Every element is at most all that stand below it. -/
def Ordered (le : α → α → Bool) : Heap α → Prop
  | empty => True
  | node _ top left right =>
    (∀ a ∈ left.elements ++ right.elements, le top a) ∧ left.Ordered le ∧ right.Ordered le

theorem Ordered.balance {top : α} {a b : Heap α}
    (least : ∀ x ∈ a.elements ++ b.elements, le top x) (left : a.Ordered le)
    (right : b.Ordered le) : (balance top a b).Ordered le := by
  rw [Heap.balance]
  split
  · exact ⟨least, left, right⟩
  · refine ⟨fun x mem => least x ?_, right, left⟩
    exact List.perm_append_comm.mem_iff.1 mem

section Merge

variable (trans : ∀ a b c, le a b → le b c → le a c) (total : ∀ a b, le a b ∨ le b a)

include trans total

/-- The lesser top is at most all of both trees, so they are in order below it. -/
theorem Ordered.mergeNode {rank : Nat} {top : α} {left right b : Heap α}
    {mergeRight : Heap α → Heap α}
    (right_spec : ∀ b, (mergeRight b).elements.Perm (right.elements ++ b.elements))
    (right_ordered : ∀ b : Heap α, b.Ordered le → (mergeRight b).Ordered le)
    (here : (node rank top left right).Ordered le) (there : b.Ordered le) :
    (mergeNode le rank top left right mergeRight b).Ordered le := by
  obtain ⟨least, leftOrdered, -⟩ := id here
  induction b with
  | empty => exact here
  | node rank' top' left' right' _ ih =>
    obtain ⟨least', leftOrdered', rightOrdered'⟩ := id there
    rw [Heap.mergeNode]
    split
    · next le_top =>
      refine .balance (fun x mem => ?_) leftOrdered (right_ordered _ there)
      rw [List.mem_append, (right_spec _).mem_iff, List.mem_append] at mem
      rcases mem with inLeft | inRight | inHeap
      · exact least x (List.mem_append_left _ inLeft)
      · exact least x (List.mem_append_right _ inRight)
      · rcases List.mem_cons.1 inHeap with rfl | below
        · exact le_top
        · exact trans _ _ _ le_top (least' x below)
    · next not_le =>
      have le_top : le top' top := (total top top').resolve_left not_le
      refine .balance (fun x mem => ?_) leftOrdered' (ih rightOrdered')
      rw [List.mem_append,
        (elements_mergeNode le rank top left right right_spec right').mem_iff,
        List.mem_append] at mem
      rcases mem with inLeft | inNode | inRight
      · exact least' x (List.mem_append_left _ inLeft)
      · rcases List.mem_cons.1 inNode with rfl | below
        · exact le_top
        · exact trans _ _ _ le_top (least x below)
      · exact least' x (List.mem_append_right _ inRight)

/-- **Merging keeps the order.** -/
theorem Ordered.merge {a b : Heap α} (here : a.Ordered le) (there : b.Ordered le) :
    (merge le a b).Ordered le := by
  induction a generalizing b with
  | empty => exact there
  | node rank top left right _ ih =>
    exact .mergeNode trans total (elements_merge le right) (fun b ordered => ih here.2.2 ordered)
      here there

theorem Ordered.insert {heap : Heap α} (a : α) (ordered : heap.Ordered le) :
    (insert le a heap).Ordered le :=
  .merge trans total ⟨by simp [elements], trivial, trivial⟩ ordered

end Merge

end Navigability.Entry.Heap
