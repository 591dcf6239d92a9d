import Navigability.Component.Listing
import Navigability.Component.Progress
import Navigability.Run

/-!
# Strongly connected components of a selection

The members that no search has reached are taken as roots in ascending order, and turns are made
from each of them until the path is empty. A component comes out when its root is closed, so one
that reaches another comes out after it. The search reports each component as it comes out, and
the numbers of the whole listing at the end. A row that names a number outside the selection ends
the search; its reports up to there remain.

## Main definitions

* `drain`: turns until the path is empty
* `searchRoots`: the search from every root
* `Selection.components`: the components of a selection

## Main results

* `drain_eq`: draining is a turn, and draining again unless it found the path empty
-/

namespace Navigability.Component

variable {γ : Type} [Adjacency γ]

/-- Turns until the path is empty. -/
def drain (selection : Selection) (graph : γ) : Attempt Search Unit := fun s =>
  match _ : turn selection graph s with
  | .ok .finished s' => .ok () s'
  | .ok (.entered _) s' => drain selection graph s'
  | .ok (.closed _) s' => drain selection graph s'
  | .error failure s' => .error failure s'
termination_by s => s.pending
decreasing_by all_goals exact pending_turn_lt ‹_› (by simp)

theorem drain_eq (selection : Selection) (graph : γ) :
    drain selection graph = turn selection graph >>= fun done =>
      if done = .finished then pure () else drain selection graph := by
  funext s
  rw [drain]
  simp only [bind, EStateM.bind]
  split <;> next ran => simp [ran, pure, EStateM.pure]

/-- Search from each of the given members that is not visited when its turn comes. -/
def searchRoots (selection : Selection) (graph : γ) : List Nat → Attempt Search Unit
  | [] => return ()
  | root :: roots => do
    if (← stateAt root).index = 0 then
      enter root root
      drain selection graph
    searchRoots selection graph roots

/-- The report on a whole listing. -/
def Listing.event (listing : Listing) : Event :=
  .componentsListed listing.label listing.memberCount listing.size listing.largest
    listing.singletons

end Navigability.Component

namespace Navigability

open Component

/-- The strongly connected components of the members of a selection. -/
def Selection.components {γ : Type} [Adjacency γ] (selection : Selection) (graph : γ)
    (buffers : Buffers) : Run Buffers Event Listing :=
  match Buffers.reset selection.pointCount buffers with
  | .error failure buffers => { result := .error failure, state := buffers, reports := [] }
  | .ok () buffers =>
    match searchRoots selection graph selection.members { toBuffers := buffers } with
    | .error failure s =>
      { result := .error failure, state := s.toBuffers, reports := s.reports.toList }
    | .ok () s =>
      let listing : Listing :=
        { label := selection.label
          memberCount := selection.memberCount
          components := s.components.toList }
      { result := .ok listing
        state := s.toBuffers
        reports := s.reports.toList ++ [listing.event] }

end Navigability
