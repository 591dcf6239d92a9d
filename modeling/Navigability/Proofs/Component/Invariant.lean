import Mathlib.Data.List.Basic
import Navigability.Proofs.Component.Snapshot
import Navigability.Proofs.Selection.Path

/-!
# The invariant of the component search

Between two turns the visited points are those on the trail and those of the components that are
out. The path is a part of the trail, joined by steps. What a point of the path is known to reach
is the number of a point on the trail, and no step from a point that was closed since then leads to
a smaller number. Every point of the trail reaches a point of the path that was entered no later.
The points that are out are left by no step.

## Main definitions

* `Snapshot.Settled w`: reading a row, there is nothing to do about its entry `w`
* `Snapshot.Bookkeeping`, `Snapshot.LowLinks`, `Snapshot.Output`: the three parts of the invariant
* `Snapshot.Invariant`: the invariant

## Main results

* `Snapshot.Invariant.blank`: it holds before the first turn
-/

namespace Navigability.Component

open Function (update)

namespace Snapshot

variable {γ : Type} [Adjacency γ]

/-- A number is settled when it is a point that is not to be entered: no member, or visited. -/
def Settled (selection : Selection) (σ : Snapshot) (w : Nat) : Prop :=
  w < selection.pointCount ∧ (selection.isMember w → σ.index w ≠ 0)

/-- The point of the path that was entered last among those entered no later than `x`. -/
structure Guardian (σ : Snapshot) (v x : Nat) : Prop where
  mem : v ∈ σ.path
  le : σ.index v ≤ σ.index x
  greatest : ∀ u ∈ σ.path, σ.index u ≤ σ.index x → σ.index u ≤ σ.index v

/-- Which points are visited, where they are kept, and how they are numbered. -/
structure Bookkeeping (selection : Selection) (graph : γ) (σ : Snapshot) : Prop where
  visited_iff : ∀ p, σ.index p ≠ 0 ↔ p ∈ σ.trail ∨ p ∈ σ.components.flatten
  distinct : (σ.trail ++ σ.components.flatten).Nodup
  member : ∀ p, σ.index p ≠ 0 → selection.isMember p
  count : σ.lastIndex = (σ.trail ++ σ.components.flatten).length
  index_le : ∀ p, σ.index p ≤ σ.lastIndex
  index_injective : ∀ p q, σ.index p ≠ 0 → σ.index p = σ.index q → p = q
  onTrail_iff : ∀ p, σ.onTrail p ↔ p ∈ σ.trail
  listed_iff : ∀ p, σ.listed p ↔ p ∈ σ.components.flatten
  descending : σ.trail.Pairwise fun p q => σ.index q < σ.index p
  path_sublist : σ.path.Sublist σ.trail
  linked : ∀ v below, v :: below <:+ σ.path →
    σ.parent v = below.headD v ∧ ∀ u ∈ below.head?, selection.Step graph u v
  position_le : ∀ v ∈ σ.path, σ.position v ≤ (Adjacency.row graph v).length
  read_settled : ∀ v ∈ σ.path, ∀ w ∈ (Adjacency.row graph v).take (σ.position v),
    σ.Settled selection w

/-- What the points of the path are known to reach. -/
structure LowLinks (selection : Selection) (graph : γ) (σ : Snapshot) : Prop where
  closed_settled : ∀ v, σ.index v ≠ 0 → v ∉ σ.path → ∀ w ∈ Adjacency.row graph v,
    σ.Settled selection w
  descends : ∀ v ∈ σ.path, ∀ x ∈ σ.trail, σ.index v ≤ σ.index x → selection.Reaches graph v x
  low_le : ∀ v ∈ σ.path, σ.low v ≤ σ.index v
  low_attained : ∀ v ∈ σ.path, ∃ z ∈ σ.trail, σ.index z = σ.low v ∧ selection.Reaches graph v z
  low_bound : ∀ x ∈ σ.trail, x ∉ σ.path → ∀ z ∈ σ.trail, selection.Step graph x z →
    ∀ v, σ.Guardian v x → σ.low v ≤ σ.index z

/-- What was put out. -/
structure Output (selection : Selection) (graph : γ) (σ : Snapshot) : Prop where
  isolated : ∀ u ∈ σ.components.flatten, ∀ w, selection.Step graph u w →
    w ∈ σ.components.flatten
  inhabited : ∀ component ∈ σ.components, component ≠ []
  mutual_paths : ∀ component ∈ σ.components, ∀ u ∈ component, ∀ v ∈ component,
    selection.Reaches graph u v
  ordered : σ.components.Pairwise fun earlier later =>
    ∀ u ∈ earlier, ∀ v ∈ later, ¬ selection.Reaches graph u v
  reported : σ.reports = σ.components.map fun component =>
    closingEvent (component.getLastD 0) component

/-- The invariant of the component search. -/
structure Invariant (selection : Selection) (graph : γ) (σ : Snapshot) : Prop extends
    Bookkeeping selection graph σ, LowLinks selection graph σ, Output selection graph σ where
  supported : ∀ x ∈ σ.trail, ∃ y ∈ σ.path, σ.index y ≤ σ.index x ∧ selection.Reaches graph x y

variable {selection : Selection} {graph : γ} {σ : Snapshot}

/-! ## The start -/

/-- The snapshot in which nothing is visited. -/
def blank : Snapshot where
  index _ := 0
  low _ := 0
  parent _ := 0
  position _ := 0
  onTrail _ := false
  listed _ := false
  path := []
  trail := []
  lastIndex := 0
  components := []
  reports := []

theorem snapshot_blank (n : Nat) :
    Search.snapshot { toBuffers := Buffers.blank n } = blank := by
  have unused : ∀ p, Search.stateOf { toBuffers := Buffers.blank n } p = {} := by
    intro p
    rw [Search.stateOf, Buffers.blank, Array.getD_eq_getD_getElem?, Array.getElem?_replicate]
    split <;> rfl
  simp only [Search.snapshot, blank, unused, Snapshot.mk.injEq]
  simp [Buffers.blank]

theorem Invariant.blank : Invariant selection graph blank := by
  constructor <;> (try constructor) <;> simp [Snapshot.blank]

/-! ## What follows from the bookkeeping -/

theorem top_mem {v : Nat} {below : List Nat} (path : σ.path = v :: below) : v ∈ σ.path := by
  rw [path]
  exact List.mem_cons_self

namespace Bookkeeping

variable (book : σ.Bookkeeping selection graph) {v : Nat} {below : List Nat}

include book

theorem visited_of_trail {x : Nat} (h : x ∈ σ.trail) : σ.index x ≠ 0 :=
  (book.visited_iff x).2 (.inl h)

theorem trail_of_path {x : Nat} (h : x ∈ σ.path) : x ∈ σ.trail := book.path_sublist.subset h

theorem visited_of_path {x : Nat} (h : x ∈ σ.path) : σ.index x ≠ 0 :=
  book.visited_of_trail (book.trail_of_path h)

theorem trail_nodup : σ.trail.Nodup := (List.nodup_append.1 book.distinct).1

/-- What is on the trail is not out. -/
theorem not_listed {x : Nat} (h : x ∈ σ.trail) : x ∉ σ.components.flatten :=
  fun out => (List.nodup_append.1 book.distinct).2.2 x h x out rfl

theorem unlisted_of_trail {x : Nat} (h : x ∈ σ.trail) : ¬ σ.listed x := by
  rw [book.listed_iff]
  exact book.not_listed h

/-- No point is on both sides of a cut through the trail. -/
theorem trail_cut {above rest : List Nat} (shape : σ.trail = above ++ v :: rest) :
    (above ++ [v]).Nodup ∧ ∀ x ∈ above ++ [v], x ∈ σ.trail ∧ x ∉ rest := by
  have regroup : σ.trail = (above ++ [v]) ++ rest := by simp [shape]
  have nodup := book.trail_nodup
  rw [regroup, List.nodup_append] at nodup
  refine ⟨nodup.1, fun x mem => ⟨?_, fun mem' => nodup.2.2 x mem x mem' rfl⟩⟩
  rw [regroup]
  exact List.mem_append_left _ mem

/-- The points of the path were entered before its top. -/
theorem below_lt (path : σ.path = v :: below) {u : Nat} (h : u ∈ below) :
    σ.index u < σ.index v := by
  have descending := book.descending.sublist book.path_sublist
  rw [path, List.pairwise_cons] at descending
  exact descending.1 u h

theorem le_top (path : σ.path = v :: below) {u : Nat} (h : u ∈ σ.path) :
    σ.index u ≤ σ.index v := by
  rw [path, List.mem_cons] at h
  rcases h with rfl | h
  · exact Nat.le_refl _
  · exact Nat.le_of_lt (book.below_lt path h)

theorem top_not_mem (path : σ.path = v :: below) : v ∉ below :=
  fun h => Nat.lt_irrefl _ (book.below_lt path h)

/-- The top of the path guards what was entered no earlier. -/
theorem guardian_top (path : σ.path = v :: below) {x : Nat} (h : σ.index v ≤ σ.index x) :
    σ.Guardian v x :=
  ⟨top_mem path, h, fun _ mem _ => book.le_top path mem⟩

/-- There is a number left for every member that is not visited. -/
theorem lastIndex_lt {w : Nat} (member : selection.isMember w) (fresh : σ.index w = 0) :
    σ.lastIndex < selection.memberCount := by
  have away : w ∉ σ.trail ++ σ.components.flatten := by
    rw [List.mem_append, ← book.visited_iff]
    exact not_not_intro fresh
  have distinct : (w :: (σ.trail ++ σ.components.flatten)).Nodup :=
    List.nodup_cons.2 ⟨away, book.distinct⟩
  have members : w :: (σ.trail ++ σ.components.flatten) ⊆ selection.members := by
    intro p mem
    rw [Selection.mem_members_iff]
    rcases List.mem_cons.1 mem with rfl | mem
    · exact member
    · exact book.member p ((book.visited_iff p).2 (List.mem_append.1 mem))
  have := List.Nodup.length_le_of_subset distinct members
  rw [selection.length_members, List.length_cons, ← book.count] at this
  exact this

end Bookkeeping

end Snapshot

end Navigability.Component
