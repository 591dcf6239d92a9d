import Navigability.Entry.Ranking
import Navigability.Reach.Traversal

/-!
# Coverage of a selection

The coverage of a selection tells how many of its members can be reached from its best entry
points. The members are ranked by inner degree, a traversal is made from each of the best, and the
points that any of the traversals visited are counted once. A selection without members, or a
measurement without entry points, covers nothing and uses no storage. Otherwise the room for the
entry points is reserved when the degrees are known, for as many of them as are wanted.

## Main definitions

* `Policy`: how many entry points are wanted, and how members of equal degree are ranked
* `EntryReach`, `Coverage`: what is measured
* `Coverage.fraction`: the covered part of the members
* `Selection.coverage`: the coverage of a selection
-/

namespace Navigability.Reach

open Entry

/-- How entry points are chosen. -/
structure Policy where
  entryCount : Nat := 10
  tie : TieRule := .lowestFirst
  deriving DecidableEq

/-- An entry point: its inner degree, how many members can be reached from it, itself included, and
the greatest distance of one of them. -/
structure EntryReach where
  point : Nat
  degree : Nat
  reached : Nat
  depth : Nat
  deriving DecidableEq

/-- The coverage of a label: its entry points, the best first, and how many members can be reached
from any of them. -/
structure Coverage where
  label : String
  memberCount : Nat
  entries : List EntryReach
  covered : Nat
  deriving DecidableEq

namespace Coverage

/-- The coverage without entry points. -/
def empty (selection : Selection) : Coverage :=
  { label := selection.label, memberCount := selection.memberCount, entries := [], covered := 0 }

/-- The covered part of the members, or zero if there are none. -/
def fraction (coverage : Coverage) : Float :=
  if coverage.memberCount = 0 then 0
  else Float.ofNat coverage.covered / Float.ofNat coverage.memberCount

/-- The report on a whole coverage. -/
def event (coverage : Coverage) : Event :=
  .coverageMeasured coverage.label coverage.memberCount coverage.entries.length coverage.covered

end Coverage

/-- The report on an entry point. -/
def EntryReach.event (entry : EntryReach) : Event :=
  .entryTraversed entry.point entry.degree entry.reached entry.depth

/-- The state of a measurement: the storage, the entry points that are done, how many members they
reach together, and the reports. -/
structure Measurement extends Buffers where
  entries : Array EntryReach := #[]
  total : Nat := 0
  reports : Array Event := #[]

/-- An attempt on the storage, as part of a measurement. -/
def onBuffers {α : Type} (attempt : Attempt Buffers α) : Attempt Measurement α :=
  fun ⟨buffers, entries, total, reports⟩ =>
    match attempt buffers with
    | .ok a buffers => .ok a ⟨buffers, entries, total, reports⟩
    | .error failure buffers => .error failure ⟨buffers, entries, total, reports⟩

/-- Count the points that are reached for the first time, on top of a total. -/
def coverAll : List Nat → Nat → Attempt Buffers Nat
  | [], total => return total
  | point :: points, total => do
    let fresh ← cover point
    coverAll points (if fresh then total + 1 else total)

variable {γ : Type} [Adjacency γ]

/-- Traverse the graph from an entry point. -/
def measureEntry (selection : Selection) (graph : γ) (candidate : Candidate) :
    Attempt Measurement Unit := do
  let depth ← onBuffers (traverse selection graph candidate.point)
  let visited := (← get).visited
  let total ← onBuffers (coverAll visited (← get).total)
  let entry : EntryReach :=
    { point := candidate.point, degree := candidate.degree, reached := visited.length, depth }
  modify fun s => { s with
    entries := s.entries.push entry
    total
    reports := s.reports.push entry.event }

/-- Traverse the graph from each of the given entry points. -/
def measureEntries (selection : Selection) (graph : γ) : List Candidate → Attempt Measurement Unit
  | [] => return ()
  | candidate :: candidates => do
    measureEntry selection graph candidate
    measureEntries selection graph candidates

/-- Rank the members and traverse the graph from the best of them. -/
def measure [Memory] (selection : Selection) (graph : γ) (policy : Policy) :
    Attempt Measurement Unit := do
  onBuffers (Buffers.reset selection.pointCount)
  onBuffers (Buffers.writeDegrees selection graph)
  let candidates ← Attempt.check
    (shortlist (← get).degrees policy.tie policy.entryCount selection.members)
  measureEntries selection graph candidates

end Navigability.Reach

namespace Navigability

open Reach

/-- The coverage of a selection under a policy. -/
def Selection.coverage {γ : Type} [Adjacency γ] [Memory] (selection : Selection) (graph : γ)
    (policy : Policy) (buffers : Buffers) : Run Buffers Event Coverage :=
  if selection.memberCount = 0 ∨ policy.entryCount = 0 then
    { result := .ok (.empty selection)
      state := buffers
      reports := [.nothingToMeasure selection.label selection.memberCount] }
  else
    match measure selection graph policy { toBuffers := buffers } with
    | .error failure s =>
      { result := .error failure, state := s.toBuffers, reports := s.reports.toList }
    | .ok () s =>
      let coverage : Coverage :=
        { Coverage.empty selection with entries := s.entries.toList, covered := s.total }
      { result := .ok coverage
        state := s.toBuffers
        reports := s.reports.toList ++ [coverage.event] }

end Navigability
