import Navigability.Component.Search
import Navigability.Reach.Coverage

/-!
# Workspaces

A workspace is the storage of both kinds of analysis. It can be used for one run after another, on
graphs and selections of any sizes and whether or not earlier runs failed. Each kind of run works
on its own part and leaves the other as it is.

## Main definitions

* `Workspace.components`, `Workspace.coverage`, `Workspace.reach`: the analyses, run in a workspace
* `Workspace.capacities`: the numbers of points both parts are sized for
-/

namespace Navigability

/-- The storage of both kinds of analysis. -/
structure Workspace where
  search : Component.Buffers := {}
  visits : Reach.Buffers := {}
  deriving DecidableEq

namespace Workspace

/-- The numbers of points that the parts are sized for: the search, then the traversals. -/
def capacities (workspace : Workspace) : Nat × Nat :=
  (workspace.search.capacity, workspace.visits.capacity)

variable {γ : Type} [Adjacency γ]

/-- The strongly connected components of a selection. -/
def components (workspace : Workspace) (selection : Selection) (graph : γ) :
    Run Workspace Event Component.Listing :=
  let ⟨search, visits⟩ := workspace
  (selection.components graph search).mapState fun search => { search, visits }

/-- The coverage of a selection under a policy. -/
def coverage [Memory] (workspace : Workspace) (selection : Selection) (graph : γ)
    (policy : Reach.Policy) : Run Workspace Event Reach.Coverage :=
  let ⟨search, visits⟩ := workspace
  (selection.coverage graph policy visits).mapState fun visits => { search, visits }

/-- The members of a selection that can be reached from a point. -/
def reach (workspace : Workspace) (selection : Selection) (graph : γ) (start : Nat) :
    Run Workspace Event (List Nat) :=
  let ⟨search, visits⟩ := workspace
  (selection.reach graph start visits).mapState fun visits => { search, visits }

end Workspace

end Navigability
