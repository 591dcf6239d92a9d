import Navigability.Proofs.Component.Simulation
import Navigability.Proofs.Selection.Copy

/-!
# The component search in a copy

The search for components goes along a row from member to member. An entry that is no member changes
nothing, for no such point is ever on the stack. So the recursive search does in a copy of a
selection what it does in the original, step by step, and its states are the same up to the names
of the points: numbers, stack and components.

## Main definitions

* `Renamed`: the states of the recursive search in a copy and in the original
* `Listing.rename e`: a listing with the points renamed

## Main results

* `along_filter_nil`, `along_filter_cons`: entries of a row that are no members change nothing
* `along_renamed`, `visitRoots_renamed`: the recursive search in a copy
* `components_renamed`: both listings
-/

namespace Navigability.Component

/-- A listing with the points renamed. -/
def Listing.rename (e : Nat → Nat) (listing : Listing) : Listing :=
  { listing with components := listing.components.map (·.map e) }

namespace Recursive

open Function (update)

/-! ## Entries that are no members -/

section Filter

variable {γ : Type} [Adjacency γ] {selection : Selection} (graph : γ) (v : Nat) {t : State}
  (onStack : ∀ x ∈ t.stack, selection.isMember x) {row : List Nat}
  (inside : ∀ x ∈ row, x < selection.pointCount)

include onStack

theorem along_other {w : Nat} (here : w < selection.pointCount) (other : ¬ selection.isMember w) :
    along selection graph v (w :: row) t = along selection graph v row t := by
  have away : w ∉ t.stack := fun mem => other (onStack w mem)
  rw [along_settled here fun fresh => other fresh.1, State.glance, if_neg away]

include inside

theorem along_filter_nil (none : row.filter selection.isMember = []) :
    along selection graph v row t = .ok t := by
  induction row with
  | nil => exact along_nil
  | cons w row ih =>
    obtain ⟨here, inside⟩ := List.forall_mem_cons.1 inside
    have other : ¬ selection.isMember w := fun member => by simp [member] at none
    rw [along_other graph v onStack here other]
    exact ih inside (by simpa [other] using none)

theorem along_filter_cons {w : Nat} {rest : List Nat}
    (shape : row.filter selection.isMember = w :: rest) :
    ∃ back, back.filter selection.isMember = rest ∧ (∀ x ∈ back, x < selection.pointCount) ∧
      along selection graph v row t = along selection graph v (w :: back) t := by
  induction row with
  | nil => cases shape
  | cons x row ih =>
    obtain ⟨here, inside⟩ := List.forall_mem_cons.1 inside
    by_cases member : selection.isMember x
    · rw [List.filter_cons_of_pos member, List.cons.injEq] at shape
      obtain ⟨rfl, rest⟩ := shape
      exact ⟨row, rest, inside, rfl⟩
    · rw [List.filter_cons_of_neg member] at shape
      rw [along_other graph v onStack here member]
      exact ih inside shape

end Filter

/-! ## States up to names -/

/-- The states of the recursive search in a copy and in the original. -/
structure Renamed (selection' : Selection) (e : Nat → Nat) (t' t : State) : Prop where
  index : ∀ i, selection'.isMember i → t.index (e i) = t'.index i
  low : ∀ i, selection'.isMember i → t.low (e i) = t'.low i
  stack : t.stack = t'.stack.map e
  onStack : ∀ i ∈ t'.stack, selection'.isMember i
  lastIndex : t.lastIndex = t'.lastIndex
  components : t.components = t'.components.map (·.map e)

theorem unstack_subset (root : Nat) (stack : List Nat) : (unstack root stack).2 ⊆ stack := by
  induction stack with
  | nil => exact List.Subset.refl _
  | cons top stack ih =>
    rw [unstack]
    split
    · exact List.subset_cons_self top stack
    · exact List.subset_cons_of_subset top ih

variable {γ δ : Type} [Adjacency γ] [Adjacency δ] {selection selection' : Selection} {graph : γ}
  {graph' : δ} {e : Nat → Nat} {i j : Nat} {t t' : State}

section States

variable (copies : Selection.Copies selection' graph' selection graph e)

include copies

theorem unstack_map (hi : selection'.isMember i) {stack : List Nat}
    (members : ∀ j ∈ stack, selection'.isMember j) : unstack (e i) (stack.map e) =
      ((unstack i stack).1.map e, (unstack i stack).2.map e) := by
  induction stack with
  | nil => rfl
  | cons top stack ih =>
    obtain ⟨member, members⟩ := List.forall_mem_cons.1 members
    simp only [List.map_cons, unstack, copies.eq_iff member hi, ih members]
    split <;> rfl

theorem update_renamed {f f' : Nat → Nat}
    (same : ∀ j, selection'.isMember j → f (e j) = f' j) (hi : selection'.isMember i)
    (value : Nat) (hj : selection'.isMember j) :
    update f (e i) value (e j) = update f' i value j := by
  by_cases here : j = i
  · rw [here, Function.update_self, Function.update_self]
  · rw [Function.update_of_ne (fun there => here ((copies.eq_iff hj hi).1 there)),
      Function.update_of_ne here, same j hj]

namespace Renamed

variable (renamed : Renamed selection' e t' t)

include renamed

theorem fresh_iff (hi : selection'.isMember i) :
    t.Fresh (e i) selection ↔ t'.Fresh i selection' := by
  rw [State.Fresh, State.Fresh, renamed.index i hi, iff_true_intro (copies.isMember hi),
    iff_true_intro hi]

theorem enter (hi : selection'.isMember i) :
    Renamed selection' e (t'.enter i) (t.enter (e i)) where
  index j hj := by
    rw [State.enter, State.enter, renamed.lastIndex]
    exact update_renamed copies renamed.index hi _ hj
  low j hj := by
    rw [State.enter, State.enter, renamed.lastIndex]
    exact update_renamed copies renamed.low hi _ hj
  stack := by rw [State.enter, State.enter, List.map_cons, renamed.stack]
  onStack := List.forall_mem_cons.2 ⟨hi, renamed.onStack⟩
  lastIndex := by rw [State.enter, State.enter, renamed.lastIndex]
  components := renamed.components

theorem lower (hi : selection'.isMember i) (low : Nat) :
    Renamed selection' e (t'.lower i low) (t.lower (e i) low) :=
  { renamed with
    low j hj := by
      rw [State.lower, State.lower, renamed.low i hi]
      exact update_renamed copies renamed.low hi _ hj }

theorem mem_stack_iff (hj : selection'.isMember j) : e j ∈ t.stack ↔ j ∈ t'.stack := by
  rw [renamed.stack, List.mem_map]
  constructor
  · rintro ⟨k, mem, same⟩
    exact (copies.eq_iff (renamed.onStack k mem) hj).1 same ▸ mem
  · exact fun mem => ⟨j, mem, rfl⟩

theorem glance (hi : selection'.isMember i) (hj : selection'.isMember j) :
    Renamed selection' e (t'.glance i j) (t.glance (e i) (e j)) := by
  simp only [State.glance, renamed.mem_stack_iff copies hj, renamed.index j hj]
  split
  · exact renamed.lower copies hi _
  · exact renamed

theorem finish (hi : selection'.isMember i) :
    Renamed selection' e (t'.finish i) (t.finish (e i)) := by
  have cut := unstack_map copies hi renamed.onStack
  rw [← renamed.stack] at cut
  rw [State.finish, State.finish, renamed.low i hi, renamed.index i hi]
  split
  · exact
      { renamed with
        stack := by rw [cut]
        onStack := fun j mem => renamed.onStack j (unstack_subset i t'.stack mem)
        components := by
          rw [cut, List.map_append, renamed.components]
          rfl }
  · exact renamed

theorem isMember_of_stack (x : Nat) (mem : x ∈ t.stack) : selection.isMember x := by
  rw [renamed.stack, List.mem_map] at mem
  obtain ⟨i, mem, rfl⟩ := mem
  exact copies.isMember (renamed.onStack i mem)

end Renamed

end States

/-! ## The search -/

section Search

variable (copies : Selection.Copies selection' graph' selection graph e)
  (intact : ∀ p, ¬ selection.Frays graph p) (intact' : ∀ p, ¬ selection'.Frays graph' p)

include copies intact intact'

/-- **Going along rows** with the same members does the same in a copy. The induction is on the
members that are not visited, and for each number of them on those in the rows. -/
theorem along_renamed (renamed : Renamed selection' e t' t) (hi : selection'.isMember i)
    {rest row row' : List Nat} (shape : row.filter selection.isMember = rest.map e)
    (shape' : row'.filter selection'.isMember = rest)
    (inside : ∀ x ∈ row, x < selection.pointCount)
    (inside' : ∀ x ∈ row', x < selection'.pointCount) :
    ∃ u u', along selection graph (e i) row t = .ok u ∧
      along selection' graph' i row' t' = .ok u' ∧ Renamed selection' e u' u := by
  induction pending : (t.unvisited selection).length using Nat.strong_induction_on
    generalizing t t' i rest row row' with
  | h count visits =>
    induction rest generalizing t t' row row' with
    | nil =>
      exact ⟨t, t', along_filter_nil graph (e i) (renamed.isMember_of_stack copies) inside shape,
        along_filter_nil graph' i renamed.onStack inside' shape', renamed⟩
    | cons j rest ih =>
      have hj : selection'.isMember j := by
        have mem : j ∈ row'.filter selection'.isMember := by simp [shape']
        exact (List.mem_filter.1 mem).2
      obtain ⟨back, shape, inside, ran⟩ :=
        along_filter_cons graph (e i) (renamed.isMember_of_stack copies) inside shape
      obtain ⟨back', shape', inside', ran'⟩ :=
        along_filter_cons graph' i renamed.onStack inside' shape'
      rw [ran, ran']
      by_cases fresh : t'.Fresh j selection'
      · have fresh' := (renamed.fresh_iff copies hj).2 fresh
        have less := (State.unvisited_enter_lt fresh').trans_eq pending
        obtain ⟨u, u', visit, visit', returned⟩ := visits _ less
          (renamed.enter copies hj) hj (copies.rows j hj) rfl
          (fun x => Selection.lt_of_not_frays (copies.isMember hj) (intact _))
          (fun x => Selection.lt_of_not_frays hj (intact' _)) rfl
        have later : (((u.finish (e j)).lower (e i) ((u.finish (e j)).low (e j))).unvisited
            selection).length < count := by
          have same : ((u.finish (e j)).lower (e i) ((u.finish (e j)).low (e j))).index =
              u.index := State.finish_index
          rw [State.unvisited_congr same]
          exact (unvisited_along_le visit).trans_lt less
        have resumed : Renamed selection' e ((u'.finish j).lower i ((u'.finish j).low j))
            ((u.finish (e j)).lower (e i) ((u.finish (e j)).low (e j))) := by
          rw [(returned.finish copies hj).low j hj]
          exact (returned.finish copies hj).lower copies hi _
        rw [along_fresh fresh', visit, along_fresh fresh, visit']
        exact visits _ later resumed hi shape shape' inside inside' rfl
      · have settled : ¬ t.Fresh (e j) selection := fun h =>
          fresh ((renamed.fresh_iff copies hj).1 h)
        rw [along_settled (Selection.lt_of_isMember (copies.isMember hj)) settled,
          along_settled (Selection.lt_of_isMember hj) fresh]
        refine ih (renamed.glance copies hi hj) shape shape' inside inside' ?_
        rw [State.unvisited_congr State.glance_index, pending]

/-- **Visits from members** do the same in a copy. -/
theorem visitRoots_renamed {roots : List Nat}
    (members : ∀ root ∈ roots, selection'.isMember root) (renamed : Renamed selection' e t' t) :
    ∃ u u', visitRoots selection graph (roots.map e) t = .ok u ∧
      visitRoots selection' graph' roots t' = .ok u' ∧ Renamed selection' e u' u := by
  induction roots generalizing t t' with
  | nil => exact ⟨t, t', rfl, rfl, renamed⟩
  | cons root roots ih =>
    obtain ⟨member, members⟩ := List.forall_mem_cons.1 members
    rw [List.map_cons]
    by_cases fresh : t'.Fresh root selection'
    · have fresh' := (renamed.fresh_iff copies member).2 fresh
      obtain ⟨u, u', visit, visit', renamed⟩ := along_renamed copies intact intact'
        (renamed.enter copies member) member (copies.rows root member) rfl
        (fun x => Selection.lt_of_not_frays (copies.isMember member) (intact _))
        (fun x => Selection.lt_of_not_frays member (intact' _))
      rw [visitRoots_cons_fresh fresh', visit, visitRoots_cons_fresh fresh, visit']
      exact ih members (renamed.finish copies member)
    · have visited : ¬ t.Fresh (e root) selection := fun h =>
        fresh ((renamed.fresh_iff copies member).1 h)
      rw [visitRoots_cons_visited visited, visitRoots_cons_visited fresh]
      exact ih members renamed

end Search

end Recursive

/-- **The listing** of a selection is that of a copy, in the same order, with the points renamed. -/
theorem components_renamed {γ δ : Type} [Adjacency γ] [Adjacency δ]
    {selection selection' : Selection} {graph : γ} {graph' : δ} {e : Nat → Nat}
    (copies : Selection.Copies selection' graph' selection graph e)
    (intact : ∀ p, ¬ selection.Frays graph p) (intact' : ∀ p, ¬ selection'.Frays graph' p)
    (small : selection.pointCount < pointLimit) (small' : selection'.pointCount < pointLimit)
    (buffers buffers' : Buffers) :
    ∃ listing, (selection'.components graph' buffers').result = .ok listing ∧
      (selection.components graph buffers).result = .ok (listing.rename e) := by
  have blank : Recursive.Renamed selection' e .blank .blank :=
    ⟨fun _ _ => rfl, fun _ _ => rfl, rfl, by simp [Recursive.State.blank], rfl, rfl⟩
  obtain ⟨u, u', visited, visited', renamed⟩ := Recursive.visitRoots_renamed copies intact intact'
    (fun root => Selection.mem_members_iff.1) blank
  rw [← copies.members] at visited
  refine ⟨_, Recursive.components_of_visited small' visited' buffers', ?_⟩
  rw [Recursive.components_of_visited small visited buffers, Listing.rename, copies.label,
    copies.memberCount_eq, renamed.components]

end Navigability.Component
