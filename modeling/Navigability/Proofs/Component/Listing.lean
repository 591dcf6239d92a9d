import Mathlib.Data.List.Induction
import Navigability.Proofs.Component.Partition

/-!
# Component listings and look-up

The look-up of a listing answers for a point with the last of the components that hold it, whatever
the listing is. In a listing that a search returns the components are disjoint, so there is one at
most, and a set of members that no path leaves is made up of whole components.

## Main definitions

* `Listing.Sound`: what is known of the listing of a selection
* `Listing.classes`: the components as sets

## Main results

* `Listing.indices_outcome`: the answer of the look-up
* `components_ends`: a search returns a sound listing, or the row of a member strays
* `components_succeeds_iff`: on which rows a search succeeds
* `Listing.Sound.exists_part`: a set that no path leaves is a union of components
* `Listing.classes_eq_of_ok`: the components as sets are the classes of mutual reachability
-/

namespace Navigability.Component

/-! ## The look-up -/

namespace Listing

theorem getElem?_markPoints (position : Nat) (component : List Nat) {table : Array (Option Nat)}
    {p : Nat} (inside : p < table.size) : (markPoints position component table)[p]? =
      if p ∈ component then some (some position) else table[p]? := by
  induction component generalizing table with
  | nil => rfl
  | cons q component ih =>
    have step : markPoints position (q :: component) table =
        markPoints position component (table.setIfInBounds q (some position)) := rfl
    rw [step, ih (by rwa [Array.size_setIfInBounds])]
    by_cases same : q = p
    · simp [same, inside]
    · simp [same, Ne.symm same]

theorem markComponents_concat (position : Nat) (components : List (List Nat))
    (component : List Nat) (table : Array (Option Nat)) :
    markComponents position (components ++ [component]) table =
      markPoints (position + components.length) component
        (markComponents position components table) := by
  induction components generalizing position table with
  | nil => rfl
  | cons c components ih =>
    rw [List.cons_append, markComponents, ih, markComponents, List.length_cons,
      Nat.add_right_comm, Nat.add_assoc]

theorem markComponents_outcome (components : List (List Nat)) {n p : Nat} (inside : p < n) :
    ((markComponents 0 components (Array.replicate n none))[p]? = some none ∧
        p ∉ components.flatten) ∨
      ∃ i, ∃ h : i < components.length,
        (markComponents 0 components (Array.replicate n none))[p]? = some (some i) ∧
        p ∈ components[i] ∧ p ∉ (components.drop (i + 1)).flatten := by
  induction components using List.reverseRecOn with
  | nil => exact .inl ⟨by simp [markComponents, inside], by simp⟩
  | append_singleton components component ih =>
    have size : p < (markComponents 0 components (Array.replicate n none)).size := by
      rwa [size_markComponents, Array.size_replicate]
    rw [markComponents_concat, getElem?_markPoints _ _ size, Nat.zero_add]
    by_cases last : p ∈ component
    · exact .inr ⟨components.length, by simp, by rw [if_pos last], by simpa using last, by simp⟩
    · rw [if_neg last]
      rcases ih with ⟨unset, out⟩ | ⟨i, h, marked, mem, after⟩
      · exact .inl ⟨unset, by simpa [last] using out⟩
      · refine .inr ⟨i, by simp; omega, marked, by rwa [List.getElem_append_left h], ?_⟩
        rw [List.drop_append_of_le_length h, List.flatten_append, List.mem_append, not_or]
        exact ⟨after, by simpa using last⟩

/-- **The look-up** answers for a point with the last component that holds it, and with none if
there is no such component. -/
theorem indices_outcome (listing : Listing) {n p : Nat} (inside : p < n) :
    ((listing.indices n)[p]? = some none ∧ p ∉ listing.components.flatten) ∨
      ∃ i, ∃ h : i < listing.components.length, (listing.indices n)[p]? = some (some i) ∧
        p ∈ listing.components[i] ∧ p ∉ (listing.components.drop (i + 1)).flatten := by
  have outcome := markComponents_outcome listing.components inside
  rwa [← Array.getElem?_toList] at outcome

end Listing

/-! ## The listing of a selection -/

variable {γ : Type} [Adjacency γ] {selection : Selection} {graph : γ}

/-- What is known of the listing of a selection: it is a partition of the members into the classes
of mutual reachability, no component reaches a later one, and no row frays. -/
structure Listing.Sound (selection : Selection) (graph : γ) (listing : Listing) : Prop where
  nodup : listing.components.flatten.Nodup
  mem_iff : ∀ p, p ∈ listing.components.flatten ↔ selection.isMember p
  mutual_paths : ∀ component ∈ listing.components, ∀ u ∈ component, ∀ v ∈ component,
    selection.Reaches graph u v
  ordered : listing.components.Pairwise fun earlier later =>
    ∀ u ∈ earlier, ∀ v ∈ later, ¬ selection.Reaches graph u v
  intact : ∀ p, ¬ selection.Frays graph p

/-- **A search** returns a sound listing, or the row of a member strays. -/
theorem components_ends (graph : γ) (small : selection.pointCount < pointLimit)
    (buffers : Buffers) :
    (∃ listing, (selection.components graph buffers).result = .ok listing ∧
        listing.Sound selection graph) ∨
      ∃ v w, (selection.components graph buffers).result =
        .error (.neighborOutOfRange v w selection.pointCount) ∧ selection.Strays graph v w := by
  rcases components_outcome graph buffers small with
    ⟨s, sound, path, all, ran⟩ | ⟨v, w, s, -, strays, ran⟩
  · have output := sound.invariant.toOutput
    refine .inl ⟨s.listing selection, by rw [ran], sound.flatten_nodup path,
      fun p => sound.mem_flatten_iff path all, output.mutual_paths, output.ordered, ?_⟩
    rintro p ⟨member, w, mem, outside⟩
    have settled := sound.invariant.closed_settled p (all p member) (by simp [path]) w mem
    exact Nat.not_lt.2 outside settled.1
  · exact .inr ⟨v, w, by rw [ran], strays⟩

theorem Listing.sound_of_ok {buffers : Buffers} (small : selection.pointCount < pointLimit)
    {listing : Listing} (ok : (selection.components graph buffers).result = .ok listing) :
    listing.Sound selection graph := by
  rcases components_ends graph small buffers with ⟨listing', ok', sound⟩ | ⟨v, w, failed, -⟩
  · rw [ok] at ok'
    cases ok'
    exact sound
  · rw [ok] at failed
    cases failed

/-- **A search succeeds** when no row frays. -/
theorem components_succeeds_iff (graph : γ) (small : selection.pointCount < pointLimit)
    (buffers : Buffers) :
    (∃ listing, (selection.components graph buffers).result = .ok listing) ↔
      ∀ p, ¬ selection.Frays graph p := by
  constructor
  · rintro ⟨listing, ok⟩
    exact (Listing.sound_of_ok small ok).intact
  · intro intact
    rcases components_ends graph small buffers with ⟨listing, ok, -⟩ | ⟨v, w, -, strays⟩
    · exact ⟨listing, ok⟩
    · exact absurd strays.frays (intact v)

namespace Listing.Sound

variable {listing : Listing} (sound : listing.Sound selection graph) {u v i j : Nat}

include sound

theorem isMember_of_mem {component : List Nat} (listed : component ∈ listing.components)
    (mem : u ∈ component) : selection.isMember u :=
  (sound.mem_iff u).1 (List.mem_flatten.2 ⟨component, listed, mem⟩)

theorem exists_component (member : selection.isMember u) :
    ∃ component ∈ listing.components, u ∈ component :=
  List.mem_flatten.1 ((sound.mem_iff u).2 member)

/-- The look-up answers for a member with the component that holds it. -/
theorem exists_index (member : selection.isMember u) :
    ∃ i, ∃ h : i < listing.components.length,
      (listing.indices selection.pointCount)[u]? = some (some i) ∧ u ∈ listing.components[i] := by
  rcases listing.indices_outcome (Selection.lt_of_isMember member) with
    ⟨-, out⟩ | ⟨i, h, marked, mem, -⟩
  · exact absurd ((sound.mem_iff u).2 member) out
  · exact ⟨i, h, marked, mem⟩

/-- Paths lead to components that are no later. -/
theorem position_le (hi : i < listing.components.length) (hj : j < listing.components.length)
    (mem : u ∈ listing.components[i]) (mem' : v ∈ listing.components[j])
    (path : selection.Reaches graph u v) : j ≤ i := by
  by_contra gt
  exact List.pairwise_iff_getElem.1 sound.ordered i j hi hj (Nat.lt_of_not_le gt) u mem v mem' path

/-- Two members are in one component when paths lead from each to the other. -/
theorem index_eq_iff (hu : selection.isMember u) (hv : selection.isMember v) :
    (listing.indices selection.pointCount)[u]? = (listing.indices selection.pointCount)[v]? ↔
      selection.Reaches graph u v ∧ selection.Reaches graph v u := by
  obtain ⟨i, hi, marked, mem⟩ := sound.exists_index hu
  obtain ⟨j, hj, marked', mem'⟩ := sound.exists_index hv
  rw [marked, marked', Option.some.injEq, Option.some.injEq]
  constructor
  · rintro rfl
    have both := sound.mutual_paths _ (List.getElem_mem hi)
    exact ⟨both u mem v mem', both v mem' u mem⟩
  · rintro ⟨there, back⟩
    exact Nat.le_antisymm (sound.position_le hj hi mem' mem back)
      (sound.position_le hi hj mem mem' there)

/-- Points that reach each other are in one component, as neither of theirs comes out after the
other. -/
theorem eq_of_mutual {component component' : List Nat} (listed : component ∈ listing.components)
    (listed' : component' ∈ listing.components) (mem : u ∈ component) (mem' : v ∈ component')
    (there : selection.Reaches graph u v) (back : selection.Reaches graph v u) :
    component = component' := by
  obtain ⟨i, hi, rfl⟩ := List.mem_iff_getElem.1 listed
  obtain ⟨j, hj, rfl⟩ := List.mem_iff_getElem.1 listed'
  obtain rfl : i = j := Nat.le_antisymm (sound.position_le hj hi mem' mem back)
    (sound.position_le hi hj mem mem' there)
  rfl

/-- A component holds the points that a point of it reaches and is reached from. -/
theorem mem_component_iff {component : List Nat} (listed : component ∈ listing.components)
    (mem : u ∈ component) :
    v ∈ component ↔ selection.Reaches graph u v ∧ selection.Reaches graph v u := by
  have both := sound.mutual_paths component listed
  refine ⟨fun mem' => ⟨both u mem v mem', both v mem' u mem⟩, fun ⟨there, back⟩ => ?_⟩
  have member := sound.isMember_of_mem listed mem
  obtain ⟨component', listed', mem'⟩ := sound.exists_component (there.isMember member)
  rwa [sound.eq_of_mutual listed listed' mem mem' there back]

open Classical in
/-- **A set that no path leaves** is made up of whole components, all of them among the first ones
if it has no point in the others. -/
theorem exists_part (inside : Nat → Prop)
    (closed : ∀ u v, inside u → selection.Reaches graph u v → inside v) {bound : Nat}
    (early : ∀ j (h : j < listing.components.length), ∀ u ∈ listing.components[j], inside u →
      j < bound) :
    ∃ part : List (List Nat), part.Sublist (listing.components.take bound) ∧
      ∀ p, p ∈ part.flatten ↔ selection.isMember p ∧ inside p := by
  refine ⟨(listing.components.take bound).filter fun component => ∃ u ∈ component, inside u,
    List.filter_sublist, fun p => ?_⟩
  simp only [List.mem_flatten, List.mem_filter, decide_eq_true_eq]
  constructor
  · rintro ⟨component, ⟨listed, u, mem, within⟩, mem'⟩
    replace listed := List.mem_of_mem_take listed
    exact ⟨sound.isMember_of_mem listed mem',
      closed u p within (sound.mutual_paths component listed u mem p mem')⟩
  · rintro ⟨member, within⟩
    obtain ⟨component, listed, mem⟩ := sound.exists_component member
    obtain ⟨j, h, rfl⟩ := List.mem_iff_getElem.1 listed
    exact ⟨_, ⟨List.mem_take_iff_getElem.2 ⟨j, lt_min (early j h p mem within) h, rfl⟩, p, mem,
      within⟩, mem⟩

end Listing.Sound

/-! ## Components as sets -/

/-- The components of a listing as sets of points, without the order in which they come out and
without the order of the points in them. -/
def Listing.classes (listing : Listing) : Set (Set Nat) :=
  {c | ∃ component ∈ listing.components, c = {p | p ∈ component}}

/-- **The components** that a search returns are, as sets, the classes of mutual reachability. -/
theorem Listing.classes_eq_of_ok {buffers : Buffers} (small : selection.pointCount < pointLimit)
    {listing : Listing} (ok : (selection.components graph buffers).result = .ok listing) :
    listing.classes = {c | ∃ u, selection.isMember u ∧
      c = {v | selection.Reaches graph u v ∧ selection.Reaches graph v u}} := by
  have sound := Listing.sound_of_ok small ok
  have inhabited : ∀ component ∈ listing.components, component ≠ [] := by
    obtain ⟨s, search, -, -, rfl⟩ := exists_search_of_ok small ok
    exact search.invariant.toOutput.inhabited
  ext c
  constructor
  · rintro ⟨component, listed, rfl⟩
    obtain ⟨u, mem⟩ := List.exists_mem_of_ne_nil component (inhabited component listed)
    exact ⟨u, sound.isMember_of_mem listed mem, Set.ext fun v => sound.mem_component_iff listed mem⟩
  · rintro ⟨u, member, rfl⟩
    obtain ⟨component, listed, mem⟩ := sound.exists_component member
    exact ⟨component, listed, Set.ext fun v => (sound.mem_component_iff listed mem).symm⟩

end Navigability.Component
