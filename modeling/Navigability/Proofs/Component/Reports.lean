import Mathlib.Data.List.Forall2
import Navigability.Proofs.Component.Partition

/-!
# What a component search reports

A component is reported when it comes out, and it is final then: no step leaves the points that are
out, so no path leads back to them from a point that is not. A search that comes upon a row which
names a number that is no point has reported some components up to there, each of them as it is in
the end. It has done what it does in the graph whose rows are mended, where it would have gone on.

## Main definitions

* `IsComponent`: a list of the points that a member reaches and is reached from
* `ClosedBy`, `Listing.ReportedBy`: what an event says of a component, and of a whole listing
* `Selection.Mends`: a graph whose members have the rows of another one, without what is no point
* `Lockstep`: how a search ends, and how it ends in a mended graph

## Main results

* `Search.Sound.isComponent`, `Snapshot.Output.closedBy`: what is out at any time is a component,
  and is reported
* `turn_lockstep`, `drain_lockstep`, `searchRoots_lockstep`: a search does the same in a mended
  graph until it comes upon a row that strays
* `components_reported`: what a search has reported when it ends
-/

namespace Navigability

/-! ## Mended graphs -/

namespace Selection

variable {γ δ : Type} [Adjacency γ] [Adjacency δ] {selection : Selection} {graph : γ} {mended : δ}
  {p : Nat}

/-- A graph in which the members have the rows they have in another graph, without the numbers that
are no points. -/
def Mends (selection : Selection) (graph : γ) (mended : δ) : Prop :=
  ∀ p, selection.isMember p →
    Adjacency.row mended p = (Adjacency.row graph p).filter (· < selection.pointCount)

/-- A graph with all rows without the numbers that are no points. -/
def mend (selection : Selection) (graph : γ) : RowGraph :=
  .ofRows ((List.range selection.pointCount).map fun p =>
    (Adjacency.row graph p).filter (· < selection.pointCount))

theorem mends_mend (selection : Selection) (graph : γ) :
    selection.Mends graph (selection.mend graph) := by
  intro p member
  simp [mend, lt_of_isMember member]

/-- No row of a mended graph frays. -/
theorem Mends.not_frays (mends : selection.Mends graph mended) : ∀ p, ¬ selection.Frays mended p :=
  not_frays_of_inside fun p member w mem => by
    rw [mends p member, List.mem_filter] at mem
    exact of_decide_eq_true mem.2

/-- A row that names points only is not mended. -/
theorem Mends.row_eq (mends : selection.Mends graph mended) (member : selection.isMember p)
    (inside : ∀ w ∈ Adjacency.row graph p, w < selection.pointCount) :
    Adjacency.row mended p = Adjacency.row graph p := by
  rw [mends p member, List.filter_eq_self]
  exact fun w mem => decide_eq_true (inside w mem)

/-- A row is not mended up to a point in front of which it names points only. -/
theorem Mends.exists_row_eq (mends : selection.Mends graph mended) (member : selection.isMember p)
    {front back : List Nat} {w : Nat} (shape : Adjacency.row graph p = front ++ w :: back)
    (inside : ∀ x ∈ front, x < selection.pointCount) (point : w < selection.pointCount) :
    ∃ rest, Adjacency.row mended p = front ++ w :: rest := by
  have kept : front.filter (· < selection.pointCount) = front :=
    List.filter_eq_self.2 fun x mem => decide_eq_true (inside x mem)
  rw [mends p member, shape, List.filter_append, kept]
  exact ⟨_, congrArg _ (List.filter_cons_of_pos (decide_eq_true point))⟩

end Selection

namespace Component

open Attempt

variable {γ δ : Type} [Adjacency γ] [Adjacency δ] {selection : Selection} {graph : γ} {mended : δ}
  {s t : Search}

/-! ## What is out -/

/-- A list of the points that a member reaches and is reached from, each of them once. -/
structure IsComponent (selection : Selection) (graph : γ) (component : List Nat) : Prop where
  nodup : component.Nodup
  whole : ∃ u, selection.isMember u ∧
    ∀ v, v ∈ component ↔ selection.Reaches graph u v ∧ selection.Reaches graph v u

/-- An event that says that a component is complete. It names the point that was listed last, and
the number of points if there are more than one. -/
structure ClosedBy (component : List Nat) (event : Event) : Prop where
  inhabited : component ≠ []
  several : 1 < component.length → event.level = .debug ∧ event.message = "component closed" ∧
    event.data = [("root", .number (component.getLast inhabited)),
      ("size", .number component.length)]
  single : component.length = 1 → event.level = .trace ∧ event.message = "singleton component" ∧
    event.data = [("root", .number (component.getLast inhabited))]

/-- An event that says what a whole listing comes to. -/
structure Listing.ReportedBy (listing : Listing) (event : Event) : Prop where
  level : event.level = .info
  message : event.message = "strongly connected components computed"
  data : event.data = [("label", .text listing.label), ("members", .number listing.memberCount),
    ("components", .number listing.size), ("largest", .number listing.largest),
    ("singletons", .number listing.singletons)]

theorem Listing.reportedBy_event (listing : Listing) : listing.ReportedBy listing.event :=
  ⟨rfl, rfl, rfl⟩

theorem closedBy_closingEvent {component : List Nat} (inhabited : component ≠ []) :
    ClosedBy component (Snapshot.closingEvent (component.getLastD 0) component) := by
  have root : component.getLastD 0 = component.getLast inhabited := by
    rw [List.getLastD_eq_getLast?, List.getLast?_eq_some_getLast inhabited]
    rfl
  rw [root, Snapshot.closingEvent]
  split
  · next several => exact ⟨inhabited, fun _ => ⟨rfl, rfl, rfl⟩, fun one => by omega⟩
  · next few => exact ⟨inhabited, fun several => absurd several few, fun _ => ⟨rfl, rfl, rfl⟩⟩

/-- No event says of a component that it is complete and of a listing what it comes to. -/
theorem ClosedBy.not_reportedBy {component : List Nat} {event : Event}
    (closed : ClosedBy component event) (listing : Listing) : ¬ listing.ReportedBy event := by
  rintro ⟨level, -, -⟩
  have length := List.length_pos_iff.2 closed.inhabited
  rcases Nat.lt_or_ge 1 component.length with several | few
  · rw [(closed.several several).1] at level
    cases level
  · rw [(closed.single (Nat.le_antisymm few length)).1] at level
    cases level

/-- **What is out is reported**, in the order in which it came out. -/
theorem Snapshot.Output.closedBy {σ : Snapshot} (output : σ.Output selection graph) :
    List.Forall₂ ClosedBy σ.components σ.reports := by
  rw [output.reported, List.forall₂_map_right_iff, List.forall₂_same]
  exact fun component out => closedBy_closingEvent (output.inhabited component out)

/-- **What is out is final**: at any time of a search it is a component, since no step leaves what
is out. -/
theorem Search.Sound.isComponent (sound : s.Sound selection graph) {component : List Nat}
    (out : component ∈ s.snapshot.components) : IsComponent selection graph component := by
  have output := sound.invariant.toOutput
  obtain ⟨u, hu⟩ := List.exists_mem_of_ne_nil component (output.inhabited component out)
  have away : u ∈ s.snapshot.components.flatten := List.mem_flatten_of_mem out hu
  have visited := (sound.invariant.visited_iff u).2 (.inr away)
  refine ⟨?_, u, sound.invariant.member u visited, fun v => ⟨fun hv => ?_, ?_⟩⟩
  · have distinct := (List.nodup_append.1 sound.invariant.distinct).2.1
    exact (List.pairwise_flatten.1 distinct).1 component out
  · exact ⟨output.mutual_paths component out u hu v hv, output.mutual_paths component out v hv u hu⟩
  · rintro ⟨there, back⟩
    exact output.mem_of_mutual out hu (there.of_closed output.isolated away) there back

/-! ## Two searches in lockstep -/

/-- A search that ends in a graph where no row frays has not strayed. -/
theorem Search.Ends.of_intact {finished : Search → Prop}
    {result : EStateM.Result Failure Search Unit} (ends : Ends selection graph finished result)
    (intact : ∀ p, ¬ selection.Frays graph p) :
    ∃ s, result = .ok () s ∧ s.Sound selection graph ∧ finished s := by
  cases ends with
  | done sound reached => exact ⟨_, rfl, sound, reached⟩
  | strayed sound strays => exact absurd strays.frays (intact _)

/-- How a search ends, and how it ends in a mended graph: both are done with the same snapshot, or
the first one has strayed, and the second one is done with all that the first one put out, and
more. -/
inductive Lockstep (selection : Selection) (graph : γ) (mended : δ) :
    EStateM.Result Failure Search Unit → EStateM.Result Failure Search Unit → Prop
  | together {s t : Search} (sound : s.Sound selection graph) (sound' : t.Sound selection mended)
      (same : s.snapshot = t.snapshot) (path : s.snapshot.path = []) :
    Lockstep selection graph mended (.ok () s) (.ok () t)
  | ahead {s t : Search} {failure : Failure} (sound : s.Sound selection graph)
      (sound' : t.Sound selection mended) (path : t.snapshot.path = [])
      (grows : s.snapshot.Grows t.snapshot) :
    Lockstep selection graph mended (.error failure s) (.ok () t)

/-- A turn strays, or it is the same turn in a mended graph: what is settled names points only, so
what it reads was not mended. -/
theorem turn_lockstep (mends : selection.Mends graph mended) (sound : s.Sound selection graph)
    (sound' : t.Sound selection mended) (same : s.snapshot = t.snapshot) {v : Nat}
    {below : List Nat} (path : s.snapshot.path = v :: below) :
    (∃ failure, turn selection graph s = .error failure s) ∨
    ∃ done s' t', turn selection graph s = .ok done s' ∧ turn selection mended t = .ok done t' ∧
      done ≠ .finished ∧ s'.Sound selection graph ∧ t'.Sound selection mended ∧
      s'.snapshot = t'.snapshot := by
  have path' : t.snapshot.path = v :: below := same ▸ path
  have member := sound.invariant.member v (sound.invariant.visited_of_path (Snapshot.top_mem path))
  rcases Snapshot.exists_first_unsettled selection s.snapshot (Adjacency.row graph v) with
    settled | ⟨front, w, back, shape, settled, unsettled⟩
  · have whole : Adjacency.row mended v = Adjacency.row graph v :=
      mends.row_eq member fun x mem => (settled x mem).1
    have settled' : ∀ x ∈ Adjacency.row mended v, t.snapshot.Settled selection x := by
      rw [whole, ← same]
      exact settled
    obtain ⟨s', ran, soundAfter, shown⟩ := turn_closes sound path settled
    obtain ⟨t', ran', soundAfter', shown'⟩ := turn_closes sound' path' settled'
    refine .inr ⟨_, s', t', ran, ran', nofun, soundAfter, soundAfter', ?_⟩
    rw [shown, shown', whole, same]
  · rcases Snapshot.not_settled_iff.1 unsettled with outside | ⟨unvisited, fresh⟩
    · exact .inl ⟨_, turn_strays sound path shape settled outside⟩
    · obtain ⟨rest, shape'⟩ := mends.exists_row_eq member shape (fun x mem => (settled x mem).1)
        (Selection.lt_of_isMember unvisited)
      obtain ⟨s', ran, soundAfter, shown⟩ := turn_enters sound path shape settled unvisited fresh
      obtain ⟨t', ran', soundAfter', shown'⟩ :=
        turn_enters sound' path' shape' (same ▸ settled) unvisited (same ▸ fresh)
      refine .inr ⟨_, s', t', ran, ran', nofun, soundAfter, soundAfter', ?_⟩
      rw [shown, shown', same]

theorem drain_lockstep (mends : selection.Mends graph mended) (sound : s.Sound selection graph)
    (sound' : t.Sound selection mended) (same : s.snapshot = t.snapshot) :
    Lockstep selection graph mended (drain selection graph s) (drain selection mended t) := by
  induction pending : s.pending using Nat.strong_induction_on generalizing s t with
  | h bound ih =>
    cases path : s.snapshot.path with
    | nil =>
      rw [drain_of_path_nil path, drain_of_path_nil (same ▸ path)]
      exact .together sound sound' same path
    | cons v below =>
      rcases turn_lockstep mends sound sound' same path with
        ⟨failure, ran⟩ | ⟨done, s', t', ran, ran', more, soundAfter, soundAfter', same'⟩
      · obtain ⟨u, drained, soundEnd, empty, grows⟩ := (drain_ends sound').of_intact mends.not_frays
        rw [drain_of_error ran, drained]
        exact .ahead sound soundEnd empty (same ▸ grows)
      · rw [drain_of_turn ran more, drain_of_turn ran' more]
        exact ih _ (pending ▸ pending_turn_lt ran more) soundAfter soundAfter' same' rfl

/-- **A search does the same in a mended graph** until it comes upon a row that strays. -/
theorem searchRoots_lockstep (mends : selection.Mends graph mended) {roots : List Nat}
    (members : ∀ root ∈ roots, selection.isMember root) (sound : s.Sound selection graph)
    (sound' : t.Sound selection mended) (same : s.snapshot = t.snapshot)
    (path : s.snapshot.path = []) :
    Lockstep selection graph mended (searchRoots selection graph roots s)
      (searchRoots selection mended roots t) := by
  induction roots generalizing s t with
  | nil => exact .together sound sound' same path
  | cons root roots ih =>
    obtain ⟨member, members⟩ := List.forall_mem_cons.1 members
    have inside := sound.inside member
    have inside' := sound'.inside member
    by_cases fresh : s.snapshot.index root = 0
    · obtain ⟨s', entered, soundIn, shown⟩ := enter_root sound path member fresh
      obtain ⟨t', entered', soundIn', shown'⟩ :=
        enter_root sound' (same ▸ path) member (same ▸ fresh)
      have drained := drain_lockstep mends soundIn soundIn' (by rw [shown, shown', same])
      rw [searchRoots_cons_fresh inside fresh, searchRoots_cons_fresh inside' (same ▸ fresh),
        bind_of_ok entered, bind_of_ok entered']
      generalize ran : drain selection graph s' = result,
        ran' : drain selection mended t' = result' at drained
      cases drained with
      | together soundOut soundOut' same' empty =>
        rw [bind_of_ok ran, bind_of_ok ran']
        exact ih members soundOut soundOut' same' empty
      | ahead soundOut soundOut' empty grows =>
        obtain ⟨u, rest, soundEnd, empty', grows', -⟩ :=
          (searchRoots_ends members soundOut' empty).of_intact mends.not_frays
        rw [bind_of_error ran, bind_of_ok ran', rest]
        exact .ahead soundOut soundEnd empty' (grows.trans grows')
    · rw [searchRoots_cons_visited inside fresh, searchRoots_cons_visited inside' (same ▸ fresh)]
      exact ih members sound sound' same path

/-- A listing fails when the search for it does. -/
theorem exists_search_of_error {buffers : Buffers} (small : selection.pointCount < pointLimit)
    {failure : Failure} (failed : (selection.components graph buffers).result = .error failure) :
    ∃ s : Search, s.Sound selection graph ∧ searchRoots selection graph selection.members
      { toBuffers := Buffers.blank selection.pointCount } = .error failure s := by
  have ends := search_ends graph small
  generalize ran : searchRoots selection graph _ _ = result at ends
  cases ends with
  | done sound reached =>
    rw [components_of_search buffers small ran] at failed
    cases failed
  | strayed sound strays =>
    rw [components_of_search_error buffers small ran] at failed
    exact ⟨_, sound, by rw [Except.error.inj failed]⟩

/-- What a search that fails has put out is the beginning of the listing of a mended graph. -/
theorem components_lockstep (mends : selection.Mends graph mended)
    (small : selection.pointCount < pointLimit) {failure : Failure}
    (strayed : searchRoots selection graph selection.members
      { toBuffers := Buffers.blank selection.pointCount } = .error failure s) (buffers : Buffers) :
    ∃ t : Search, t.Sound selection mended ∧ s.snapshot.Grows t.snapshot ∧
      (selection.components mended buffers).result = .ok (t.listing selection) ∧
      (selection.components mended buffers).reports =
        t.snapshot.reports ++ [(t.listing selection).event] := by
  have both := searchRoots_lockstep mends (fun root => Selection.mem_members_iff.1)
    (.blank small) (.blank small) rfl (Search.snapshot_path_blank selection)
  rw [strayed] at both
  generalize ran : searchRoots selection mended _ _ = result at both
  cases both with
  | ahead sound sound' path grows =>
    rw [components_of_search buffers small ran]
    exact ⟨_, sound', grows, rfl, rfl⟩

/-! ## Reports -/

/-- **A search reports each component as it comes out, and in the end the listing.** If it succeeds,
it has reported the components of the listing, in their order, and then the whole listing. If it
fails, it has reported components only, and each of them is final. They are the first ones that it
reports in the graph whose members have their rows without the numbers that are no points, and there
it succeeds. -/
theorem components_reported (graph : γ) (buffers : Buffers)
    (small : selection.pointCount < pointLimit) :
    (∀ listing, (selection.components graph buffers).result = .ok listing → ∃ events event,
      (selection.components graph buffers).reports = events ++ [event] ∧
      List.Forall₂ ClosedBy listing.components events ∧ listing.ReportedBy event) ∧
    ∀ failure, (selection.components graph buffers).result = .error failure →
      (∀ event ∈ (selection.components graph buffers).reports, ∀ listing : Listing,
        ¬ listing.ReportedBy event) ∧
      ∃ closed, List.Forall₂ ClosedBy closed (selection.components graph buffers).reports ∧
        (∀ component ∈ closed, IsComponent selection graph component) ∧
        ∀ {δ : Type} [Adjacency δ] (mended : δ), selection.Mends graph mended → ∀ buffers',
          (∃ listing, (selection.components mended buffers').result = .ok listing ∧
            closed <+: listing.components) ∧
          (selection.components graph buffers).reports <+:
            (selection.components mended buffers').reports := by
  refine ⟨fun listing ok => ?_, fun failure failed => ?_⟩
  · rcases components_outcome graph buffers small with
      ⟨s, sound, path, all, ran⟩ | ⟨v, w, s, sound, strays, ran⟩
    · rw [ran] at ok ⊢
      cases ok
      exact ⟨_, _, rfl, sound.invariant.toOutput.closedBy, Listing.reportedBy_event _⟩
    · rw [ran] at ok
      cases ok
  · obtain ⟨s, sound, strayed⟩ := exists_search_of_error small failed
    have output := sound.invariant.toOutput
    rw [components_of_search_error buffers small strayed]
    refine ⟨fun event reported listing => ?_, s.snapshot.components, output.closedBy,
      fun component out => sound.isComponent out, fun mended mends buffers' => ?_⟩
    · rw [output.reported] at reported
      obtain ⟨component, out, rfl⟩ := List.mem_map.1 reported
      exact (closedBy_closingEvent (output.inhabited component out)).not_reportedBy listing
    · obtain ⟨t, sound', grows, ok, reports⟩ := components_lockstep mends small strayed buffers'
      rw [reports]
      refine ⟨⟨_, ok, grows.components⟩, ?_⟩
      have earlier : s.snapshot.reports <+: t.snapshot.reports := by
        rw [output.reported, sound'.invariant.reported]
        exact grows.components.map _
      exact earlier.trans (List.prefix_append _ _)

/-- The cycles of `twoCycles`, and a number that is no point behind the bridge between them. -/
def frayedCycles : RowGraph := .ofRows [[1, 2, 0], [0, 3, 3, 7], [0], [4], [3, 4]]

theorem reported_frayedCycles :
    onCycles.pointCount < pointLimit ∧
    (onCycles.components twoCycles {}).result = .ok ⟨"cycles", 4, [[4, 3], [1, 0]]⟩ ∧
    (∃ events event, (onCycles.components twoCycles {}).reports = events ++ [event] ∧
      List.Forall₂ ClosedBy [[4, 3], [1, 0]] events ∧ event.level = .info) ∧
    (onCycles.components frayedCycles {}).result = .error (.neighborOutOfRange 1 7 5) ∧
    (onCycles.components frayedCycles {}).reports = [.componentClosed 3 2] ∧
    (onCycles.components frayedCycles {}).reports <+:
      (onCycles.components (onCycles.mend frayedCycles) {}).reports := by
  have small : onCycles.pointCount < pointLimit := by decide
  have ok := components_twoCycles {}
  have failed : (onCycles.components frayedCycles {}).result =
      .error (.neighborOutOfRange 1 7 5) := by
    rw [Selection.components, Buffers.reset_of_lt small]
    decide +kernel
  have closed : (onCycles.components frayedCycles {}).reports = [.componentClosed 3 2] := by
    rw [Selection.components, Buffers.reset_of_lt small]
    decide +kernel
  obtain ⟨events, event, shape, each, whole⟩ := (components_reported twoCycles {} small).1 _ ok
  obtain ⟨-, out, -, -, mends⟩ := (components_reported frayedCycles {} small).2 _ failed
  exact ⟨small, ok, ⟨events, event, shape, each, whole.level⟩, failed, closed,
    (mends _ (onCycles.mends_mend frayedCycles) {}).2⟩

end Component

end Navigability
