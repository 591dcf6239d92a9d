import Mathlib.Combinatorics.SimpleGraph.Connectivity.Connected
import Navigability.Proofs.Component.Listing
import Navigability.Proofs.Graph.Undirected
import Navigability.Proofs.Reach.Reachable
import Navigability.Proofs.Workspace.History

/-!
# Analyses of undirected edge lists

Where steps lead both ways, so do paths, and to be reached is to be in the same component. On an
edge list read as undirected this makes the components the connected ones of the simple graph on the
members. No number in a row is beyond the points, so nothing fails.

## Main definitions

* `Selection.Symmetric`: whether steps lead both ways
* `EdgeList.selected list selection`: the simple graph on the members of a selection

## Main results

* `Listing.Sound.mergeSort_component`: where steps lead both ways, a component in ascending order is
  what each of its points reaches
* `EdgeList.reachable_selected_iff`: paths are those of the simple graph on the members
* `analyses_of_undirected`: the rows of an undirected edge list, and what the analyses return on it
-/

namespace Navigability

/-! ## Steps that lead both ways -/

section Symmetric

variable {γ : Type} [Adjacency γ] {selection : Selection} {graph : γ}

/-- Whether every step can be taken back. -/
def Selection.Symmetric (selection : Selection) (graph : γ) : Prop :=
  ∀ u v, selection.Step graph u v → selection.Step graph v u

theorem Selection.Symmetric.reaches_comm (symmetric : selection.Symmetric graph) {u v : Nat} :
    selection.Reaches graph u v ↔ selection.Reaches graph v u := by
  have steps : Std.Symm (selection.Step graph) := ⟨symmetric⟩
  have paths : Std.Symm (selection.Reaches graph) := Relation.ReflTransGen.stdSymm
  exact ⟨paths.symm u v, paths.symm v u⟩

variable {listing : Component.Listing} (sound : listing.Sound selection graph)
  (symmetric : selection.Symmetric graph) {component : List Nat} {u : Nat}

include sound symmetric

/-- Where steps lead both ways, a component is what one of its points reaches. -/
theorem Component.Listing.Sound.mem_component_iff_reaches (listed : component ∈ listing.components)
    (mem : u ∈ component) {v : Nat} : v ∈ component ↔ selection.Reaches graph u v := by
  rw [sound.mem_component_iff listed mem]
  exact and_iff_left_of_imp symmetric.reaches_comm.1

/-- **Where steps lead both ways**, a component in ascending order is what each of its points
reaches. -/
theorem Component.Listing.Sound.mergeSort_component (listed : component ∈ listing.components)
    (mem : u ∈ component) : component.mergeSort = selection.reachable graph u := by
  have member := sound.isMember_of_mem listed mem
  have nodup := (List.nodup_flatten.1 sound.nodup).1 component listed
  apply Selection.mergeSort_eq_reachable
  rw [List.perm_ext_iff_of_nodup nodup (selection.reachable_nodup graph u)]
  intro v
  rw [sound.mem_component_iff_reaches symmetric listed mem, Selection.mem_reachable_iff member]

end Symmetric

/-! ## Undirected edge lists -/

namespace EdgeList

/-- The simple graph of an edge list on the members of a selection: the members that share an edge
are adjacent. -/
def selected (list : EdgeList) (selection : Selection) :
    SimpleGraph {p | selection.isMember p} :=
  list.simple.induce {p | selection.isMember p}

variable {list : EdgeList} {selection : Selection}

theorem step_undirected_iff (inside : list.Inside) {u v : Nat} :
    selection.Step list.undirected u v ↔ selection.isMember u ∧ selection.isMember v ∧
      ((u, v) ∈ list.edges ∨ (v, u) ∈ list.edges) := by
  rw [← mem_row_undirected_iff inside]
  exact ⟨fun step => ⟨step.source, step.target, step.neighbor⟩,
    fun ⟨source, target, neighbor⟩ => ⟨source, neighbor, target⟩⟩

theorem symmetric_undirected (inside : list.Inside) (selection : Selection) :
    selection.Symmetric list.undirected := by
  intro u v step
  rw [step_undirected_iff inside] at step ⊢
  exact ⟨step.2.1, step.1, step.2.2.symm⟩

theorem not_frays_undirected (inside : list.Inside) (size : selection.pointCount = list.pointCount)
    (p : Nat) : ¬ selection.Frays list.undirected p := by
  refine Selection.not_frays_of_inside (fun p _ w mem => ?_) p
  rw [size]
  exact lt_of_mem_undirected inside mem

/-- Adjacent members are those that a step joins and that are different. -/
theorem selected_adj_iff (inside : list.Inside) {u v : {p | selection.isMember p}} :
    (list.selected selection).Adj u v ↔ u ≠ v ∧ selection.Step list.undirected u v := by
  rw [selected, SimpleGraph.induce_adj, simple, SimpleGraph.fromRel_adj,
    step_undirected_iff inside, ne_eq, ne_eq, Subtype.ext_iff]
  exact and_congr_right fun _ => ⟨fun edge => ⟨u.2, v.2, edge⟩, fun ⟨_, _, edge⟩ => edge⟩

/-- **Paths** between members are those of the simple graph on the members: a loop is a step, but
joins no point to another one. -/
theorem reachable_selected_iff (inside : list.Inside) {u v : Nat} (hu : selection.isMember u)
    (hv : selection.isMember v) :
    (list.selected selection).Reachable ⟨u, hu⟩ ⟨v, hv⟩ ↔
      selection.Reaches list.undirected u v := by
  rw [SimpleGraph.reachable_iff_reflTransGen]
  constructor
  · intro path
    exact path.lift Subtype.val fun _ _ adj => ((selected_adj_iff inside).1 adj).2
  · intro path
    induction path with
    | refl => exact .refl
    | @tail w v path step ih =>
      have before := ih step.source
      by_cases loop : w = v
      · subst loop
        exact before
      · exact before.tail ((selected_adj_iff inside).2 ⟨mt (congrArg Subtype.val) loop, step⟩)

/-- The classes of mutual reachability are the connected components. -/
theorem mutual_classes_eq (inside : list.Inside) (selection : Selection) :
    {c | ∃ u, selection.isMember u ∧ c = {v | selection.Reaches list.undirected u v ∧
      selection.Reaches list.undirected v u}} =
    {c | ∃ C : (list.selected selection).ConnectedComponent, c = Subtype.val '' C.supp} := by
  have supp (u : {p | selection.isMember p}) :
      Subtype.val '' ((list.selected selection).connectedComponentMk u).supp =
        {v | selection.Reaches list.undirected u v ∧ selection.Reaches list.undirected v u} := by
    ext v
    constructor
    · rintro ⟨v, same, rfl⟩
      rw [SimpleGraph.ConnectedComponent.mem_supp_iff, SimpleGraph.ConnectedComponent.eq] at same
      have back := (reachable_selected_iff inside v.2 u.2).1 same
      exact ⟨(symmetric_undirected inside selection).reaches_comm.1 back, back⟩
    · rintro ⟨there, back⟩
      have member := there.isMember u.2
      refine ⟨⟨v, member⟩, ?_, rfl⟩
      rw [SimpleGraph.ConnectedComponent.mem_supp_iff, SimpleGraph.ConnectedComponent.eq]
      exact (reachable_selected_iff inside member u.2).2 back
  ext c
  constructor
  · rintro ⟨u, member, rfl⟩
    exact ⟨_, (supp ⟨u, member⟩).symm⟩
  · rintro ⟨C, rfl⟩
    induction C using SimpleGraph.ConnectedComponent.ind with
    | h u => exact ⟨u, u.2, supp u⟩

end EdgeList

open Component in
/-- **Undirected edge lists.** In the compressed graph of an edge list read as undirected, one point
stands in the row of another as often as the other way round, and all rows together have two entries
for each edge between two points and one for each loop. In workspaces that any tasks have used, the
search for components succeeds under every selection, its components are the connected components of
the simple graph on the members, no edge joins two of them, and what is reached from a member is its
component in ascending order. -/
theorem analyses_of_undirected [Memory] (list : EdgeList) (inside : list.Inside)
    (small : list.pointCount < pointLimit) :
    (∀ a b, (Adjacency.row list.undirected a).count b =
      (Adjacency.row list.undirected b).count a) ∧
    list.undirected.edgeCount = 2 * list.links.length + list.loops.length ∧
    ∀ selection : Selection, selection.pointCount = list.pointCount →
      ∀ before before' : List Task, ∃ listing,
        ((Workspace.after before).components selection list.undirected).result = .ok listing ∧
        listing.components.flatten.Nodup ∧
        listing.classes =
          {c | ∃ C : (list.selected selection).ConnectedComponent, c = Subtype.val '' C.supp} ∧
        (∀ edge ∈ list.edges, ∀ component ∈ listing.components,
          ∀ component' ∈ listing.components, edge.1 ∈ component → edge.2 ∈ component' →
          component = component') ∧
        ∀ u, selection.isMember u → ∃ component ∈ listing.components, u ∈ component ∧
          ((Workspace.after before').reach selection list.undirected u).result =
            .ok component.mergeSort := by
  refine ⟨EdgeList.count_row_undirected_comm inside, EdgeList.edgeCount_undirected inside,
    fun selection size before before' => ?_⟩
  replace small : selection.pointCount < pointLimit := size ▸ small
  have symmetric := EdgeList.symmetric_undirected inside selection
  have intact := EdgeList.not_frays_undirected inside size
  obtain ⟨listing, ok⟩ := (components_succeeds_iff list.undirected small
    (Workspace.after before).search).2 intact
  have sound := Listing.sound_of_ok small ok
  refine ⟨listing, ok, sound.nodup, ?_, ?_, fun u member => ?_⟩
  · rw [Listing.classes_eq_of_ok small ok, EdgeList.mutual_classes_eq inside]
  · intro edge mem component listed component' listed' left right
    have source := sound.isMember_of_mem listed left
    have target := sound.isMember_of_mem listed' right
    have step := (EdgeList.step_undirected_iff inside).2 ⟨source, target, .inl mem⟩
    exact sound.eq_of_mutual listed listed' left right (.single step)
      (.single (symmetric _ _ step))
  · obtain ⟨component, listed, mem⟩ := sound.exists_component member
    obtain ⟨n, -, ready⟩ := Workspace.exists_ready before'
    refine ⟨component, listed, mem, ?_⟩
    rw [sound.mergeSort_component symmetric listed mem]
    exact Reach.reach_of_intact ready small member fun v _ => intact v

/-- All points of the line but the third, so that the last is cut off. -/
def EdgeList.onDoubled : Selection := ⟨"ends", #[true, true, false, true]⟩

open EdgeList in
theorem undirected_doubled :
    doubled.Inside ∧ doubled.pointCount < pointLimit ∧
    onDoubled.pointCount = doubled.pointCount ∧
    doubled.undirected.edgeCount = 2 * 4 + 1 ∧
    ∃ listing, ((Workspace.after [.strayed]).components onDoubled doubled.undirected).result =
        .ok listing ∧
      listing.classes =
        {c | ∃ C : (doubled.selected onDoubled).ConnectedComponent, c = Subtype.val '' C.supp} ∧
      ∃ component ∈ listing.components, 1 ∈ component ∧
        ((Workspace.after []).reach onDoubled doubled.undirected 1).result =
          .ok component.mergeSort := by
  have inside : doubled.Inside := by decide
  have small : doubled.pointCount < pointLimit := by decide
  have size : onDoubled.pointCount = doubled.pointCount := rfl
  obtain ⟨-, edges, analyses⟩ := analyses_of_undirected doubled inside small
  obtain ⟨listing, ok, -, classes, -, reach⟩ := analyses onDoubled size [.strayed] []
  exact ⟨inside, small, size, edges, listing, ok, classes, reach 1 rfl⟩

end Navigability
