import Navigability.Component.Search
import Navigability.Proofs.Component.Progression

/-!
# Outcomes of the component search

A search from a state with the invariant makes turns until the path is empty or a row strays, and
in both cases leaves a state with the invariant. A search from every member that ends with an
empty path has visited all members. Since every point of the trail reaches a point of the path,
there is nothing left on the trail then, and all members are out.

## Main definitions

* `Search.Ends`: the search came to an end with a property, or a row strays
* `Snapshot.Grows`: what is visited and what is out remains so

## Main results

* `drain_ends`, `searchRoots_ends`: a search comes to one of the two ends
* `components_outcome`: the listing of a selection is what a sound search put out
-/

namespace Navigability.Component

open Attempt

variable {γ : Type} [Adjacency γ] {selection : Selection} {graph : γ} {s t : Search}

/-- The two ends of a search: it is done, or the row of a member strays. -/
inductive Search.Ends (selection : Selection) (graph : γ) (finished : Search → Prop) :
    EStateM.Result Failure Search Unit → Prop
  | done {s : Search} (sound : s.Sound selection graph) (reached : finished s) :
    Ends selection graph finished (.ok () s)
  | strayed {v w : Nat} {s : Search} (sound : s.Sound selection graph)
      (strays : selection.Strays graph v w) :
    Ends selection graph finished
      (.error (.neighborOutOfRange v w selection.pointCount) s)

namespace Search

theorem Ends.mono {finished finished' : Search → Prop}
    {result : EStateM.Result Failure Search Unit} (ends : Ends selection graph finished result)
    (imp : ∀ s, finished s → finished' s) : Ends selection graph finished' result := by
  cases ends with
  | done sound reached => exact .done sound (imp _ reached)
  | strayed sound strays => exact .strayed sound strays

/-- A search that goes on where another one is done. -/
theorem Ends.bind {finished finished' : Search → Prop} {first : Attempt Search Unit}
    {next : Unit → Attempt Search Unit} (ends : Ends selection graph finished (first s))
    (goesOn : ∀ t, t.Sound selection graph → finished t →
      Ends selection graph finished' (next () t)) :
    Ends selection graph finished' ((first >>= next) s) := by
  generalize ran : first s = result at ends
  cases ends with
  | done sound reached =>
    rw [bind_of_ok ran]
    exact goesOn _ sound reached
  | strayed sound strays =>
    rw [bind_of_error ran]
    exact .strayed sound strays

end Search

/-! ## Growing -/

namespace Snapshot

/-- What is visited in a snapshot is visited in a later one, and the components that are out remain,
in their order. -/
structure Grows (σ τ : Snapshot) : Prop where
  visited : ∀ p, σ.index p ≠ 0 → τ.index p ≠ 0
  components : σ.components <+: τ.components

variable {ρ σ τ : Snapshot} {v w : Nat}

theorem Grows.refl (σ : Snapshot) : σ.Grows σ := ⟨fun _ visited => visited, List.prefix_refl _⟩

theorem Grows.trans (first : ρ.Grows σ) (second : σ.Grows τ) : ρ.Grows τ :=
  ⟨fun p visited => second.visited p (first.visited p visited),
    first.components.trans second.components⟩

theorem grows_readTo (stop : Nat) : σ.Grows (σ.readTo v stop) :=
  ⟨fun _ visited => visited, List.prefix_refl _⟩

theorem grows_enter (fresh : σ.index w = 0) : σ.Grows (σ.enter w v) where
  visited p visited := by
    have other : p ≠ w := fun same => visited (same ▸ fresh)
    rw [enter_index_of_ne other]
    exact visited
  components := List.prefix_refl _

theorem grows_close (selection : Selection) (row : List Nat) :
    σ.Grows (σ.close selection v row) where
  visited p visited := by
    rw [close_index]
    exact visited
  components := by
    rw [close]
    split
    · show σ.components <+: (σ.retire v _).components ++ [_]
      rw [retire_components]
      exact List.prefix_append _ _
    · exact (σ.retire_components v _).symm ▸ List.prefix_refl _

end Snapshot

/-! ## Draining -/

section Drain

variable {v : Nat} {below : List Nat}

theorem drain_of_turn {done : Turn} (ran : turn selection graph s = .ok done t)
    (more : done ≠ .finished) : drain selection graph s = drain selection graph t := by
  rw [drain_eq, bind_of_ok ran, if_neg more, ← drain_eq]

theorem drain_of_error {failure : Failure} (ran : turn selection graph s = .error failure t) :
    drain selection graph s = .error failure t := by
  rw [drain_eq, bind_of_error ran]

theorem drain_of_path_nil (path : s.snapshot.path = []) :
    drain selection graph s = .ok () s := by
  rw [drain_eq, bind_of_ok (turn_finished path)]
  rfl

/-- From a point of the path on the search either strays or makes a turn that goes on. -/
theorem turn_goes_on (sound : s.Sound selection graph) (path : s.snapshot.path = v :: below) :
    (∃ w, selection.Strays graph v w ∧
      turn selection graph s = .error (.neighborOutOfRange v w selection.pointCount) s) ∨
    ∃ done s', turn selection graph s = .ok done s' ∧ done ≠ .finished ∧
      s'.Sound selection graph ∧ s.snapshot.Grows s'.snapshot := by
  have top := Snapshot.top_mem path
  rcases Snapshot.exists_first_unsettled selection s.snapshot (Adjacency.row graph v) with
    settled | ⟨front, w, back, shape, settled, unsettled⟩
  · obtain ⟨s', ran, sound', shown⟩ := turn_closes sound path settled
    refine .inr ⟨_, s', ran, by simp, sound', ?_⟩
    rw [shown]
    exact (Snapshot.grows_readTo _).trans (Snapshot.grows_close selection _)
  · rcases Snapshot.not_settled_iff.1 unsettled with outside | ⟨member, fresh⟩
    · have source := sound.invariant.member v (sound.invariant.visited_of_path top)
      exact .inl ⟨w, ⟨source, outside, front, back, shape, fun x mem => (settled x mem).1⟩,
        turn_strays sound path shape settled outside⟩
    · obtain ⟨s', ran, sound', shown⟩ := turn_enters sound path shape settled member fresh
      refine .inr ⟨_, s', ran, by simp, sound', ?_⟩
      rw [shown]
      exact (Snapshot.grows_readTo _).trans (Snapshot.grows_enter fresh)

/-- **Draining** comes to an empty path, or a row strays. A turn that goes on leaves less to do. -/
theorem drain_ends (sound : s.Sound selection graph) :
    Search.Ends selection graph (fun t => t.snapshot.path = [] ∧ s.snapshot.Grows t.snapshot)
      (drain selection graph s) := by
  induction pending : s.pending using Nat.strong_induction_on generalizing s with
  | h bound ih =>
    cases path : s.snapshot.path with
    | nil =>
      rw [drain_of_path_nil path]
      exact .done sound ⟨path, .refl _⟩
    | cons v below =>
      rcases turn_goes_on sound path with ⟨w, strays, ran⟩ | ⟨done, s', ran, more, sound', grows⟩
      · rw [drain_of_error ran]
        exact .strayed sound strays
      · rw [drain_of_turn ran more]
        refine (ih _ (pending ▸ pending_turn_lt ran more) sound' rfl).mono ?_
        rintro t ⟨empty, grows'⟩
        exact ⟨empty, grows.trans grows'⟩

end Drain

/-! ## Searching from every root -/

theorem searchRoots_cons_visited {root : Nat} {roots : List Nat} (inside : root < s.points.size)
    (visited : s.snapshot.index root ≠ 0) :
    searchRoots selection graph (root :: roots) s = searchRoots selection graph roots s := by
  have nonzero : (s.stateOf root).index ≠ 0 := fun zero => visited (congrArg UInt32.toNat zero)
  rw [searchRoots, bind_of_ok (stateAt_of_lt inside), if_neg nonzero]

theorem searchRoots_cons_fresh {root : Nat} {roots : List Nat} (inside : root < s.points.size)
    (fresh : s.snapshot.index root = 0) :
    searchRoots selection graph (root :: roots) s =
      (enter root root >>= fun _ => drain selection graph >>= fun _ =>
        searchRoots selection graph roots) s := by
  have zero : (s.stateOf root).index = 0 := UInt32.toNat_inj.1 fresh
  rw [searchRoots, bind_of_ok (stateAt_of_lt inside), if_pos zero]

/-- A root is entered from nowhere. -/
theorem enter_root (sound : s.Sound selection graph) (path : s.snapshot.path = []) {root : Nat}
    (member : selection.isMember root) (fresh : s.snapshot.index root = 0) :
    ∃ s', enter root root s = .ok () s' ∧ s'.Sound selection graph ∧
      s'.snapshot = s.snapshot.enter root root := by
  have fits := sound.fits member
  obtain ⟨s', ran, size, shown⟩ := enter_snapshot (sound.inside member) (sound.room member fresh)
    fits fits
  refine ⟨s', ran, ⟨size.trans sound.size, sound.small, ?_⟩, shown⟩
  rw [shown]
  exact sound.invariant.enter member fresh (by simp [path])

/-- **A search from every root** visits all of them and comes to an empty path, or a row strays. All
that is reached from a fresh root is drained before the next one. -/
theorem searchRoots_ends {roots : List Nat} (members : ∀ root ∈ roots, selection.isMember root)
    (sound : s.Sound selection graph) (path : s.snapshot.path = []) :
    Search.Ends selection graph
      (fun t => t.snapshot.path = [] ∧ s.snapshot.Grows t.snapshot ∧
        ∀ root ∈ roots, t.snapshot.index root ≠ 0)
      (searchRoots selection graph roots s) := by
  induction roots generalizing s with
  | nil => exact .done sound ⟨path, .refl _, by simp⟩
  | cons root roots ih =>
    obtain ⟨member, members⟩ := List.forall_mem_cons.1 members
    have inside := sound.inside member
    by_cases fresh : s.snapshot.index root = 0
    · obtain ⟨t, ran, sound', shown⟩ := enter_root sound path member fresh
      have entered : t.snapshot.index root ≠ 0 := by
        rw [shown, Snapshot.enter_index_self]
        exact Nat.succ_ne_zero _
      have grows : s.snapshot.Grows t.snapshot := by
        rw [shown]
        exact Snapshot.grows_enter fresh
      rw [searchRoots_cons_fresh inside fresh, bind_of_ok ran]
      refine (drain_ends sound').bind fun r sound'' ⟨empty, grows'⟩ =>
        (ih members sound'' empty).mono fun u ⟨empty', grows'', all⟩ => ⟨empty', ?_, ?_⟩
      · exact (grows.trans grows').trans grows''
      · exact List.forall_mem_cons.2
          ⟨grows''.visited root (grows'.visited root entered), all⟩
    · rw [searchRoots_cons_visited inside fresh]
      exact (ih members sound path).mono fun u ⟨empty, grows, all⟩ =>
        ⟨empty, grows, List.forall_mem_cons.2 ⟨grows.visited root fresh, all⟩⟩

/-! ## The listing -/

theorem Search.Sound.blank (small : selection.pointCount < pointLimit) :
    Search.Sound selection graph { toBuffers := Buffers.blank selection.pointCount } where
  size := by simp [Buffers.blank]
  small := small
  invariant := by
    rw [Snapshot.snapshot_blank]
    exact .blank

/-- The listing that is made of the components a search has put out. -/
def Search.listing (selection : Selection) (s : Search) : Listing where
  label := selection.label
  memberCount := selection.memberCount
  components := s.snapshot.components

theorem components_of_search (buffers : Buffers) (small : selection.pointCount < pointLimit)
    (ran : searchRoots selection graph selection.members
      { toBuffers := Buffers.blank selection.pointCount } = .ok () s) :
    selection.components graph buffers =
      { result := .ok (s.listing selection)
        state := s.toBuffers
        reports := s.snapshot.reports ++ [(s.listing selection).event] } := by
  rw [Selection.components, Buffers.reset_of_lt small]
  simp only [ran]
  rfl

theorem components_of_search_error (buffers : Buffers) (small : selection.pointCount < pointLimit)
    {failure : Failure} (ran : searchRoots selection graph selection.members
      { toBuffers := Buffers.blank selection.pointCount } = .error failure s) :
    selection.components graph buffers =
      { result := .error failure, state := s.toBuffers, reports := s.snapshot.reports } := by
  rw [Selection.components, Buffers.reset_of_lt small]
  simp only [ran]
  rfl

theorem Search.snapshot_path_blank (selection : Selection) :
    (Search.snapshot { toBuffers := Buffers.blank selection.pointCount }).path = [] := by
  rw [Snapshot.snapshot_blank]
  rfl

/-- A search from blank storage visits all members, or a row strays. -/
theorem search_ends (graph : γ) (small : selection.pointCount < pointLimit) :
    Search.Ends selection graph
      (fun s => s.snapshot.path = [] ∧ ∀ p, selection.isMember p → s.snapshot.index p ≠ 0)
      (searchRoots selection graph selection.members
        { toBuffers := Buffers.blank selection.pointCount }) := by
  have blank : Search.Sound selection graph { toBuffers := Buffers.blank selection.pointCount } :=
    .blank small
  refine (searchRoots_ends (fun root => Selection.mem_members_iff.1) blank
    (Search.snapshot_path_blank selection)).mono ?_
  rintro s ⟨path, -, all⟩
  exact ⟨path, fun p member => all p (Selection.mem_members_iff.2 member)⟩

/-- A search from blank storage that visits all members leads to a listing, and one that strays to
a failure. -/
theorem components_outcome (graph : γ) (buffers : Buffers)
    (small : selection.pointCount < pointLimit) :
    (∃ s : Search, s.Sound selection graph ∧ s.snapshot.path = [] ∧
      (∀ p, selection.isMember p → s.snapshot.index p ≠ 0) ∧
      selection.components graph buffers =
        { result := .ok (s.listing selection)
          state := s.toBuffers
          reports := s.snapshot.reports ++ [(s.listing selection).event] }) ∨
    ∃ (v w : Nat) (s : Search), s.Sound selection graph ∧ selection.Strays graph v w ∧
      selection.components graph buffers =
        { result := .error (.neighborOutOfRange v w selection.pointCount)
          state := s.toBuffers
          reports := s.snapshot.reports } := by
  have ends := search_ends graph small
  generalize ran : searchRoots selection graph selection.members
    { toBuffers := Buffers.blank selection.pointCount } = result at ends
  cases ends with
  | done sound reached =>
    exact .inl ⟨_, sound, reached.1, reached.2, components_of_search buffers small ran⟩
  | strayed sound strays =>
    exact .inr ⟨_, _, _, sound, strays, components_of_search_error buffers small ran⟩

end Navigability.Component
