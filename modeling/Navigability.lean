import Navigability.Graph.Compressed
import Navigability.Graph.EdgeList
import Navigability.Graph.Slotted
import Navigability.Inspector
import Navigability.Json.Report
import Navigability.Label.Directory
import Navigability.Proofs.Component.Snapshot
import Navigability.Proofs.Selection.Path
import Navigability.Proofs.Component.Storage
import Navigability.Proofs.Component.Entering
import Navigability.Proofs.Component.Closing
import Navigability.Proofs.Component.Progression
import Navigability.Proofs.Component.Outcome
import Navigability.Proofs.Component.Partition
import Navigability.Proofs.Component.Recursive
import Navigability.Proofs.Component.Simulation
import Navigability.Proofs.Attempt
import Navigability.Proofs.Reach.Reuse
import Navigability.Proofs.Reach.Independence
import Navigability.Proofs.Workspace.History
import Navigability.Proofs.Selection.Distance
import Navigability.Proofs.Reach.Frontier
import Navigability.Proofs.Reach.Traversal
import Navigability.Proofs.Reach.Reachable
import Navigability.Proofs.Entry.Heap
import Navigability.Proofs.Entry.Ranking
import Navigability.Proofs.Reach.EntryPoint
import Navigability.Proofs.Reach.Coverage
import Navigability.Proofs.Reach.Growth
import Navigability.Proofs.Component.Listing
import Navigability.Proofs.Workspace.Failure
import Navigability.Proofs.Workspace.Agreement
import Navigability.Proofs.Selection.Copy
import Navigability.Proofs.Component.Copy
import Navigability.Proofs.Reach.Copy
import Navigability.Proofs.Workspace.Induced
import Navigability.Proofs.Selection.Reordering
import Navigability.Proofs.Workspace.Reordering
import Navigability.Proofs.Selection.Degree
import Navigability.Proofs.Graph.Compressed
import Navigability.Proofs.Graph.Undirected
import Navigability.Proofs.Workspace.Undirected
import Navigability.Proofs.Workspace.Reach
import Navigability.Proofs.Inspector
import Navigability.Proofs.Text.Encoding
import Navigability.Proofs.Text.Lines
import Navigability.Proofs.Text.Fields
import Navigability.Proofs.Label.Table
import Navigability.Proofs.Label.Format
import Navigability.Proofs.Json.Bindings
import Navigability.Proofs.Json.Shape
import Navigability.Proofs.Json.Report
import Navigability.Proofs.Label.Reading
import Navigability.Proofs.Selection.Label
import Navigability.Proofs.Label.Directory
import Navigability.Proofs.Graph.Slotted
import Navigability.Proofs.Reach.Reports
import Navigability.Proofs.Component.Reports
import Navigability.Proofs.Selection.Admission
import Navigability.Proofs.Component.Lookup
import Navigability.Proofs.Workspace.Access
import Navigability.Proofs.Component.Course
import Navigability.Proofs.Component.Stacks
import Navigability.Proofs.Component.Change
import Navigability.Proofs.Component.Reading
import Navigability.Proofs.Component.Iterations
import Navigability.Proofs.Reach.Itinerary
import Navigability.Proofs.Reach.Queue
import Navigability.Proofs.Component.Unbounded
import Navigability.Proofs.Reach.Unbounded
import Navigability.Proofs.Workspace.Width
