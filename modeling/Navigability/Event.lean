/-!
# Events

What an analysis reports while it runs. An event has a level, a message and named data. An
inspector opens a span around an operation, and an event of a trace stands either at top level or
in the innermost span that is open.

## Main definitions

* `Event`: the events, with `Event.level`, `Event.message` and `Event.data`
* `Span`: the spans, with `Span.name` and `Span.data`
* `TraceEntry`: a span that was opened, or an event and the span it stands in
-/

namespace Navigability

/-- How much attention an event asks for. -/
inductive Level where
  | trace
  | debug
  | info
  | warn
  deriving DecidableEq

/-- One datum of an event. -/
inductive Datum where
  | number (n : Nat)
  | text (s : String)
  deriving DecidableEq

/-- What an analysis reports. -/
inductive Event where
  /-- `tableCount` points carry the label, and `members` of them are points of the graph. -/
  | labelBeyondGraph (label : String) (tableCount members : Nat)
  /-- A component of more than one point is complete; `root` was its first visited point. -/
  | componentClosed (root size : Nat)
  /-- A component of the single point `root` is complete. -/
  | singletonClosed (root : Nat)
  /-- All components are known. -/
  | componentsListed (label : String) (members components largest singletons : Nat)
  /-- There are no members, or no entry points are wanted. -/
  | nothingToMeasure (label : String) (members : Nat)
  /-- The traversal from an entry point is complete. -/
  | entryTraversed (point degree reached depth : Nat)
  /-- All traversals are complete. -/
  | coverageMeasured (label : String) (members entries covered : Nat)
  deriving DecidableEq

namespace Event

/-- The level of an event. -/
def level : Event → Level
  | labelBeyondGraph .. => .warn
  | componentClosed .. => .debug
  | singletonClosed .. => .trace
  | componentsListed .. => .info
  | nothingToMeasure .. => .info
  | entryTraversed .. => .debug
  | coverageMeasured .. => .info

/-- The message of an event. -/
def message : Event → String
  | labelBeyondGraph .. => "label dictionary covers points the graph does not have"
  | componentClosed .. => "component closed"
  | singletonClosed .. => "singleton component"
  | componentsListed .. => "strongly connected components computed"
  | nothingToMeasure .. => "nothing to profile"
  | entryTraversed .. => "seed traversal finished"
  | coverageMeasured .. => "reachability profiled"

/-- The data of an event, by name. -/
def data : Event → List (String × Datum)
  | labelBeyondGraph label tableCount members =>
    [("label", .text label), ("dictionary_count", .number tableCount),
      ("graph_members", .number members)]
  | componentClosed root size => [("root", .number root), ("size", .number size)]
  | singletonClosed root => [("root", .number root)]
  | componentsListed label members components largest singletons =>
    [("label", .text label), ("members", .number members), ("components", .number components),
      ("largest", .number largest), ("singletons", .number singletons)]
  | nothingToMeasure label members => [("label", .text label), ("members", .number members)]
  | entryTraversed point degree reached depth =>
    [("seed", .number point), ("degree", .number degree), ("reachable", .number reached),
      ("max_depth", .number depth)]
  | coverageMeasured label members entries covered =>
    [("label", .text label), ("members", .number members), ("seeds", .number entries),
      ("union_coverage", .number covered)]

end Event

/-- An operation of an inspector that its events stand in. -/
inductive Span where
  | components (label : String)
  | coverage (label : String) (entryCount : Nat)
  | diagnosis (label : String)
  deriving DecidableEq

namespace Span

/-- The name of a span. -/
def name : Span → String
  | components .. => "find_components"
  | coverage .. => "profile_reachability"
  | diagnosis .. => "analyze"

/-- The data of a span, by name. -/
def data : Span → List (String × Datum)
  | components label => [("label", .text label)]
  | coverage label entryCount => [("label", .text label), ("seed_count", .number entryCount)]
  | diagnosis label => [("label", .text label)]

end Span

/-- One entry of a trace. -/
inductive TraceEntry where
  /-- A span was opened. -/
  | opened (span : Span)
  /-- An event was reported in the innermost open span, if one was open. -/
  | reported (span : Option Span) (event : Event)
  deriving DecidableEq

end Navigability
