import Navigability.Workspace

/-!
# Inspectors

An inspector looks at one graph under many labels. It holds the graph, the label table, the policy
for entry points, and a workspace that it uses for one question after another. Its trace shows
which question was asked and what was reported while it was answered; it warns when the table
counts more points under a label than the graph has members of it.

## Main definitions

* `Inspector.select`: the selection of a label among the points of the graph
* `Inspector.components`, `Inspector.coverage`, `Inspector.reach`: one analysis of a label
* `Inspector.diagnose`: components and coverage of a label together
-/

namespace Navigability

open Component Reach

/-- Components and coverage of one label. -/
structure Diagnosis where
  components : Listing
  coverage : Coverage
  deriving DecidableEq

/-- A graph, the labels of its points, and what is needed to analyse them. -/
structure Inspector (γ : Type) where
  graph : γ
  labels : LabelTable
  policy : Policy := {}
  workspace : Workspace := {}

namespace Inspector

variable {γ : Type} [Adjacency γ]

/-- The selection of a label among the points of the graph. -/
def select (inspector : Inspector γ) (label : String) : Selection :=
  .ofLabel inspector.labels label (Adjacency.pointCount inspector.graph)

/-- The reports on a selection: a warning if the label is not empty and the table counts another
number of points under it than the selection has members. -/
def selectionReports (inspector : Inspector γ) (label : String) : List Event :=
  let tableCount := inspector.labels.count label
  let members := (inspector.select label).memberCount
  if label ≠ "" ∧ tableCount ≠ members then [.labelBeyondGraph label tableCount members] else []

/-- Use the workspace of an inspector for an analysis of a label. The reports stand in the given
span, behind those on the selection. -/
def run {α : Type} (inspector : Inspector γ) (label : String) (span : Option Span)
    (analysis : Selection → γ → Workspace → Run Workspace Event α) :
    Run (Inspector γ) TraceEntry α :=
  let selection := inspector.select label
  let warnings := inspector.selectionReports label
  let ⟨graph, labels, policy, workspace⟩ := inspector
  let opened := match span with
    | some span => [TraceEntry.opened span]
    | none => []
  (analysis selection graph workspace)
    |>.reportFirst warnings
    |>.mapReports (TraceEntry.reported span)
    |>.reportFirst opened
    |>.mapState fun workspace => { graph, labels, policy, workspace }

/-- The strongly connected components of a label. -/
def components (inspector : Inspector γ) (label : String) : Run (Inspector γ) TraceEntry Listing :=
  inspector.run label (some (.components label)) fun selection graph workspace =>
    workspace.components selection graph

/-- The coverage of a label from a number of entry points. -/
def coverage [Memory] (inspector : Inspector γ) (label : String) (entryCount : Nat) :
    Run (Inspector γ) TraceEntry Coverage :=
  let policy := { inspector.policy with entryCount }
  inspector.run label (some (.coverage label entryCount)) fun selection graph workspace =>
    workspace.coverage selection graph policy

/-- The points with a label that can be reached from a point. -/
def reach (inspector : Inspector γ) (label : String) (start : Nat) :
    Run (Inspector γ) TraceEntry (List Nat) :=
  inspector.run label none fun selection graph workspace => workspace.reach selection graph start

/-- Components and coverage of a selection. The coverage is measured only if the components were
found. -/
def diagnoseSelection [Memory] (policy : Policy) (selection : Selection) (graph : γ)
    (workspace : Workspace) : Run Workspace Event Diagnosis :=
  let ⟨listed, workspace, reports⟩ := workspace.components selection graph
  match listed with
  | .error failure => { result := .error failure, state := workspace, reports }
  | .ok components =>
    let ⟨measured, workspace, laterReports⟩ := workspace.coverage selection graph policy
    { result := measured.map fun coverage => { components, coverage }
      state := workspace
      reports := reports ++ laterReports }

/-- Components and coverage of a label, under the inspector's policy. -/
def diagnose [Memory] (inspector : Inspector γ) (label : String) :
    Run (Inspector γ) TraceEntry Diagnosis :=
  let policy := inspector.policy
  inspector.run label (some (.diagnosis label)) (diagnoseSelection policy)

end Inspector

end Navigability
