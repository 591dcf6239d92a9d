import Mathlib.Algebra.GroupWithZero.Nat
import Mathlib.Order.Bounds.Basic
import Navigability.Proofs.Component.Listing

/-!
# Look-up in any listing

A listing may come from anywhere: its components may be empty, overlap, repeat a point, or name
numbers of any size. The look-up for `n` points answers for each of them with the last component
that holds it. What is not below `n` has no part in it, and a look-up for more points begins with
the same answers. In a listing that a search returns the components are disjoint and inhabited, so
the look-up is the inverse of the listing, and the counts of the listing are those of its parts.

## Main definitions

* `Listing.Holds j p`: the component at position `j` holds the point `p`
* `Listing.LookUp n table`: a table with the last component that holds each of `n` points
* `Listing.below n`: a listing without the numbers that are not below `n`

## Main results

* `Listing.lookUp_unique`: a listing has one look-up
* `Listing.lookUp_indices`: the indices of a listing are its look-up
* `indices_exact`: the look-up of any listing, and of a listing that a search returns
-/

namespace Navigability.Component

namespace Listing

/-- The component at a position holds a point. -/
def Holds (listing : Listing) (position point : Nat) : Prop :=
  ∃ component, listing.components[position]? = some component ∧ point ∈ component

/-- A table that has, for each of `n` points, the last component that holds it. -/
structure LookUp (listing : Listing) (n : Nat) (table : List (Option Nat)) : Prop where
  length : table.length = n
  some_iff : ∀ p i, table[p]? = some (some i) ↔ p < n ∧ IsGreatest {j | listing.Holds j p} i
  none_iff : ∀ p, table[p]? = some none ↔ p < n ∧ ∀ j, ¬ listing.Holds j p

/-- The listing without the numbers that are not below `n`. -/
def below (listing : Listing) (n : Nat) : Listing :=
  { listing with components := listing.components.map (List.filter (· < n)) }

variable {listing : Listing} {n m p i j : Nat}

theorem holds_iff_getElem (h : j < listing.components.length) :
    listing.Holds j p ↔ p ∈ listing.components[j] := by
  simp [Holds, h]

theorem Holds.lt (holds : listing.Holds j p) : j < listing.components.length := by
  obtain ⟨component, found, -⟩ := holds
  exact (List.getElem?_eq_some_iff.1 found).1

theorem exists_holds_iff : (∃ j, listing.Holds j p) ↔ p ∈ listing.components.flatten := by
  constructor
  · rintro ⟨j, component, found, mem⟩
    exact List.mem_flatten_of_mem (List.mem_of_getElem? found) mem
  · intro mem
    obtain ⟨component, listed, mem⟩ := List.mem_flatten.1 mem
    obtain ⟨j, found⟩ := List.mem_iff_getElem?.1 listed
    exact ⟨j, component, found, mem⟩

@[simp] theorem holds_below_iff :
    (listing.below n).Holds j p ↔ p < n ∧ listing.Holds j p := by
  simp only [Holds, below, List.getElem?_map, Option.map_eq_some_iff]
  constructor
  · rintro ⟨_, ⟨component, found, rfl⟩, mem⟩
    rw [List.mem_filter, decide_eq_true_iff] at mem
    exact ⟨mem.2, component, found, mem.1⟩
  · rintro ⟨inside, component, found, mem⟩
    exact ⟨_, ⟨component, found, rfl⟩, by simp [mem, inside]⟩

/-! ## The look-up of any listing -/

/-- **A listing has one look-up**: it is settled by what holds the points below `n`. -/
theorem lookUp_unique {listing' : Listing} {table table' : List (Option Nat)}
    (same : ∀ p, p < n → ∀ j, listing.Holds j p ↔ listing'.Holds j p)
    (look : listing.LookUp n table) (look' : listing'.LookUp n table') : table = table' := by
  apply List.ext_getElem?
  intro p
  rcases Nat.lt_or_ge p n with inside | outside
  · have holds : {j | listing.Holds j p} = {j | listing'.Holds j p} :=
      Set.ext fun j => same p inside j
    obtain ⟨answer, found⟩ : ∃ answer, table[p]? = some answer :=
      ⟨_, List.getElem?_eq_getElem (inside.trans_eq look.length.symm)⟩
    rw [found]
    cases answer with
    | none =>
      rw [look.none_iff] at found
      exact ((look'.none_iff p).2 ⟨inside, fun j held => found.2 j ((same p inside j).2 held)⟩).symm
    | some i =>
      rw [look.some_iff, holds] at found
      exact ((look'.some_iff p i).2 found).symm
  · rw [List.getElem?_eq_none (look.length.trans_le outside),
      List.getElem?_eq_none (look'.length.trans_le outside)]

/-- A table of `n` answers, each of them settled by the last holder, is a look-up. -/
theorem LookUp.of_cases {table : List (Option Nat)} (length : table.length = n)
    (outcome : ∀ p, p < n → table[p]? = some none ∧ (∀ j, ¬ listing.Holds j p) ∨
      ∃ i, table[p]? = some (some i) ∧ IsGreatest {j | listing.Holds j p} i) :
    listing.LookUp n table := by
  have inside_of_some : ∀ {p : Nat} {answer : Option Nat}, table[p]? = some answer → p < n :=
    fun found => (List.getElem?_eq_some_iff.1 found).1.trans_eq length
  constructor
  case length => exact length
  case some_iff =>
    intro p i
    constructor
    · intro found
      have inside := inside_of_some found
      rcases outcome p inside with ⟨unset, -⟩ | ⟨i', marked, greatest⟩
      · rw [unset] at found
        cases found
      · rw [marked] at found
        cases found
        exact ⟨inside, greatest⟩
    · rintro ⟨inside, greatest⟩
      rcases outcome p inside with ⟨-, none⟩ | ⟨i', marked, greatest'⟩
      · exact absurd greatest.1 (none i)
      · rw [greatest.unique greatest']
        exact marked
  case none_iff =>
    intro p
    constructor
    · intro found
      have inside := inside_of_some found
      rcases outcome p inside with ⟨-, none⟩ | ⟨i, marked, -⟩
      · exact ⟨inside, none⟩
      · rw [marked] at found
        cases found
    · rintro ⟨inside, none⟩
      rcases outcome p inside with ⟨unset, -⟩ | ⟨i, -, greatest⟩
      · exact unset
      · exact absurd greatest.1 (none i)

/-- **The indices** of a listing are its look-up: a later holder of a point would be among the
components behind the last one that holds it. -/
theorem lookUp_indices (listing : Listing) (n : Nat) : listing.LookUp n (listing.indices n) := by
  refine .of_cases (listing.size_indices n) fun p inside => ?_
  rcases listing.indices_outcome inside with ⟨unset, out⟩ | ⟨i, h, marked, mem, after⟩
  · exact .inl ⟨unset, fun j held => out (exists_holds_iff.1 ⟨j, held⟩)⟩
  · refine .inr ⟨i, marked, (holds_iff_getElem h).2 mem, fun j held => ?_⟩
    by_contra later
    obtain ⟨component, found, mem⟩ := held
    refine after (List.mem_flatten_of_mem (List.mem_of_getElem? (i := j - (i + 1)) ?_) mem)
    rw [List.getElem?_drop, Nat.add_sub_cancel' (Nat.lt_of_not_le later)]
    exact found

/-- What is not below `n` has no part in the look-up for `n` points. -/
theorem indices_below (listing : Listing) (n : Nat) :
    (listing.below n).indices n = listing.indices n :=
  lookUp_unique (fun p inside j => by simp [inside]) (lookUp_indices _ n) (lookUp_indices _ n)

/-- The first answers of a look-up are the look-up for fewer points. -/
theorem LookUp.take {table : List (Option Nat)} (look : listing.LookUp m table) (le : n ≤ m) :
    listing.LookUp n (table.take n) := by
  constructor
  case length => rw [List.length_take, look.length, Nat.min_eq_left le]
  case some_iff =>
    intro p i
    rcases Nat.lt_or_ge p n with inside | outside
    · rw [List.getElem?_take_of_lt inside, look.some_iff]
      simp only [inside, inside.trans_le le]
    · simp [Nat.not_lt.2 outside]
  case none_iff =>
    intro p
    rcases Nat.lt_or_ge p n with inside | outside
    · rw [List.getElem?_take_of_lt inside, look.none_iff]
      simp only [inside, inside.trans_le le]
    · simp [Nat.not_lt.2 outside]

/-- The look-up for more points begins with the same answers. -/
theorem indices_prefix (listing : Listing) (le : n ≤ m) :
    listing.indices n <+: listing.indices m := by
  have shorter := (lookUp_indices listing m).take le
  rw [lookUp_unique (fun _ _ _ => .rfl) (lookUp_indices listing n) shorter]
  exact List.take_prefix n _

/-! ## The look-up of the listing of a selection -/

/-- Components with points are of one point or of more. -/
theorem singletons_add_several (inhabited : ∀ component ∈ listing.components, component ≠ []) :
    listing.singletons + listing.components.countP (fun component => 2 ≤ component.length) =
      listing.size := by
  have other : listing.components.countP (fun component => 2 ≤ component.length) =
      listing.components.countP fun component => ¬ (component.length == 1) = true := by
    refine List.countP_congr fun component listed => ?_
    have length := List.length_pos_iff.2 (inhabited component listed)
    simp only [decide_eq_true_iff, beq_iff_eq]
    omega
  rw [singletons, other, size]
  exact (List.length_eq_countP_add_countP _).symm

end Listing

variable {γ : Type} [Adjacency γ] {selection : Selection} {graph : γ} {listing : Listing}

namespace Listing.Sound

variable (sound : listing.Sound selection graph) {p i j : Nat}

include sound

theorem isMember_of_holds (holds : listing.Holds j p) : selection.isMember p :=
  (sound.mem_iff p).1 (Listing.exists_holds_iff.1 ⟨j, holds⟩)

/-- No two components hold a point. -/
theorem holds_unique (holds : listing.Holds i p) (holds' : listing.Holds j p) : i = j := by
  have hi := holds.lt
  have hj := holds'.lt
  rw [Listing.holds_iff_getElem hi] at holds
  rw [Listing.holds_iff_getElem hj] at holds'
  exact Nat.le_antisymm (sound.position_le hj hi holds' holds .refl)
    (sound.position_le hi hj holds holds' .refl)

theorem indices_eq_some_iff :
    (listing.indices selection.pointCount)[p]? = some (some i) ↔ listing.Holds i p := by
  rw [(listing.lookUp_indices _).some_iff]
  constructor
  · exact fun found => found.2.1
  · exact fun holds => ⟨Selection.lt_of_isMember (sound.isMember_of_holds holds), holds,
      fun j holds' => (sound.holds_unique holds' holds).le⟩

theorem indices_eq_none_iff : (listing.indices selection.pointCount)[p]? = some none ↔
    p < selection.pointCount ∧ ¬ selection.isMember p := by
  rw [(listing.lookUp_indices _).none_iff, ← sound.mem_iff, ← Listing.exists_holds_iff, not_exists]

/-- The components hold every member once. -/
theorem sum_length : (listing.components.map List.length).sum = selection.memberCount := by
  have same : listing.components.flatten.Perm selection.members := by
    rw [List.perm_ext_iff_of_nodup sound.nodup selection.members_nodup]
    intro p
    rw [sound.mem_iff, Selection.mem_members_iff]
  rw [← List.length_flatten, same.length_eq, selection.length_members]

end Listing.Sound

/-- **The look-up is exact.** For any listing the indices for `n` points have, for each of them, the
last component that holds it; numbers that are not below `n` have no part in them, and they are the
beginning of the indices for more points. In a listing that a search returns a point has the index
of the component that holds it, and just the points that are not selected have none; the member
count is the number of points in all components, and every component has one point or more. -/
theorem indices_exact :
    (∀ listing : Listing, ∀ n, listing.LookUp n (listing.indices n) ∧
      (listing.below n).indices n = listing.indices n ∧
      ∀ m, n ≤ m → listing.indices n <+: listing.indices m) ∧
    ∀ {γ : Type} [Adjacency γ] (selection : Selection) (graph : γ) (buffers : Buffers)
      (listing : Listing), (selection.components graph buffers).result = .ok listing →
      (∀ p i, (listing.indices selection.pointCount)[p]? = some (some i) ↔ listing.Holds i p) ∧
      (∀ p, (listing.indices selection.pointCount)[p]? = some none ↔
        p < selection.pointCount ∧ ¬ selection.isMember p) ∧
      listing.memberCount = (listing.components.map List.length).sum ∧
      listing.singletons + listing.components.countP (fun component => 2 ≤ component.length) =
        listing.size := by
  refine ⟨fun listing n => ⟨listing.lookUp_indices n, listing.indices_below n,
    fun m => listing.indices_prefix⟩, fun selection graph buffers listing ok => ?_⟩
  have small := small_of_ok ok
  have sound := Listing.sound_of_ok small ok
  obtain ⟨s, search, -, -, made⟩ := exists_search_of_ok small ok
  refine ⟨fun p i => sound.indices_eq_some_iff, fun p => sound.indices_eq_none_iff, ?_,
    Listing.singletons_add_several ?_⟩
  · rw [sound.sum_length, made]
    rfl
  · rw [made]
    exact search.invariant.toOutput.inhabited

/-- Components that overlap, one without a point, and a number that is no point. -/
def overlapping : Listing := ⟨"overlapping", 3, [[0, 7, 0], [], [2, 0], [1]]⟩

theorem indices_twoCycles :
    overlapping.indices 4 = [some 2, some 3, some 2, none] ∧
    overlapping.indices 2 <+: overlapping.indices 4 ∧
    (onCycles.components twoCycles {}).result = .ok ⟨"cycles", 4, [[4, 3], [1, 0]]⟩ ∧
    (Listing.mk "cycles" 4 [[4, 3], [1, 0]]).Holds 1 0 ∧
    (Listing.mk "cycles" 4 [[4, 3], [1, 0]]).indices 5 =
      [some 1, some 1, none, some 0, some 0] := by
  obtain ⟨any, returned⟩ := indices_exact
  obtain ⟨holds, -⟩ := returned onCycles twoCycles {} _ (components_twoCycles {})
  exact ⟨by decide, (any overlapping 2).2.2 4 (by decide), components_twoCycles {},
    (holds 0 1).1 (by decide), by decide⟩

end Navigability.Component
