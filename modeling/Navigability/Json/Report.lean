import Navigability.Inspector
import Navigability.Json.Codec

/-!
# Stored forms of settings and reports

Policies, entry points, coverages, component listings and diagnoses have stored forms. Each is a
record with its fields in a fixed order. A tie rule is stored as its name; it is also read from an
object that binds just its name, to null. What is read need not be consistent: any numbers and
texts of the right form make a report.

## Main definitions

* `Stored` instances for the settings and the reports
-/

namespace Navigability

open Json Entry Component Reach

/-- The name of a tie rule. -/
def Entry.TieRule.name : TieRule → String
  | lowestFirst => "LowestPoint"
  | highestFirst => "HighestPoint"

/-- The tie rule with a name. -/
def Entry.TieRule.ofName? (name : String) : Option TieRule :=
  if name = TieRule.lowestFirst.name then some .lowestFirst
  else if name = TieRule.highestFirst.name then some .highestFirst
  else none

/-- A stored tie rule. -/
def Entry.TieRule.ofValue? : Value → Option TieRule
  | .string name => ofName? name
  | value => match value.single? with
    | some (name, .null) => ofName? name
    | _ => none

instance : Stored TieRule where
  encode rule := .string rule.name
  decode? := TieRule.ofValue?

@[simp] theorem decode?_encode_tieRule (rule : TieRule) : decode? (encode rule) = some rule := by
  cases rule <;> decide

instance : Stored Policy where
  encode policy :=
    .object [("seed_count", encode policy.entryCount), ("tie_break", encode policy.tie)]
  decode? value := do
    let [entryCount, tie] ← value.record? ["seed_count", "tie_break"] | none
    return { entryCount := ← decode? entryCount, tie := ← decode? tie }

instance : Stored Candidate where
  encode candidate :=
    .object [("point", encode candidate.point), ("degree", encode candidate.degree)]
  decode? value := do
    let [point, degree] ← value.record? ["point", "degree"] | none
    return { point := ← decode? point, degree := ← decode? degree }

instance : Stored EntryReach where
  encode entry :=
    .object [("point", encode entry.point), ("degree", encode entry.degree),
      ("reachable", encode entry.reached), ("max_depth", encode entry.depth)]
  decode? value := do
    let [point, degree, reached, depth] ←
      value.record? ["point", "degree", "reachable", "max_depth"] | none
    return {
      point := ← decode? point
      degree := ← decode? degree
      reached := ← decode? reached
      depth := ← decode? depth }

instance : Stored Listing where
  encode listing :=
    .object [("label", encode listing.label), ("member_count", encode listing.memberCount),
      ("components", encode listing.components)]
  decode? value := do
    let [label, memberCount, components] ←
      value.record? ["label", "member_count", "components"] | none
    return {
      label := ← decode? label
      memberCount := ← decode? memberCount
      components := ← decode? components }

instance : Stored Coverage where
  encode coverage :=
    .object [("label", encode coverage.label), ("member_count", encode coverage.memberCount),
      ("seeds", encode coverage.entries), ("union_coverage", encode coverage.covered)]
  decode? value := do
    let [label, memberCount, entries, covered] ←
      value.record? ["label", "member_count", "seeds", "union_coverage"] | none
    return {
      label := ← decode? label
      memberCount := ← decode? memberCount
      entries := ← decode? entries
      covered := ← decode? covered }

instance : Stored Diagnosis where
  encode diagnosis :=
    .object [("components", encode diagnosis.components),
      ("reachability", encode diagnosis.coverage)]
  decode? value := do
    let [components, coverage] ← value.record? ["components", "reachability"] | none
    return { components := ← decode? components, coverage := ← decode? coverage }

end Navigability
