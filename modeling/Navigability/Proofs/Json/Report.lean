import Navigability.Json.Report
import Navigability.Proofs.Json.Shape

/-!
# Shapes of settings and reports

Each of the settings and reports is a record of numbers, texts, lists and other records. A tie rule
is a string, or an object with its name only, bound to null. The stored forms agree with these
shapes: a data value is read as a report if it is a form of it, where at every depth a record may be
an object, with its fields in any order and with other names beside them, or an array of its fields
in the order of the shape. Nothing else is read: what is left has a flaw, at some depth.

## Main definitions

* `TieRule.shape`, `Policy.shape`, `Candidate.shape`, `EntryReach.shape`, `Listing.shape`,
  `Coverage.shape`, `Diagnosis.shape`: the shapes of the settings and the reports

## Main results

* `stored_exact`: all settings and reports are written and read in their shapes
-/

namespace Navigability

open Json Json.Value Entry Component Reach Shape

/-! ## Tie rules -/

/-- A tie rule is stored as its name, or as an object that binds its name to null. -/
def Entry.TieRule.shape : Shape TieRule where
  Fits _ := True
  Form rule v := v = .string rule.name ∨
    ∃ bindings, v = .object bindings ∧ counting bindings = [(rule.name, .null)]
  Flaw v := ∀ rule : TieRule, v ≠ .string rule.name ∧
    ∀ bindings, v = .object bindings → counting bindings ≠ [(rule.name, .null)]

theorem Entry.TieRule.ofName?_eq_some_iff {name : String} {rule : TieRule} :
    ofName? name = some rule ↔ name = rule.name := by
  rw [ofName?]
  split
  · next low =>
    subst low
    cases rule <;> decide
  · next notLow =>
    split
    · next high =>
      subst high
      cases rule <;> decide
    · next notHigh => cases rule <;> simp [notLow, notHigh]

theorem Entry.TieRule.ofValue?_eq_some_iff {v : Value} {rule : TieRule} :
    ofValue? v = some rule ↔ shape.Form rule v := by
  cases v with
  | string name => simp [shape, ofValue?, ofName?_eq_some_iff]
  | object bindings =>
    have form : shape.Form rule (.object bindings) ↔
        single? (.object bindings) = some (rule.name, .null) := by
      simp [shape, single?_eq_some_iff]
    rw [form, ofValue?]
    · split
      · next name single => simp [single, ofName?_eq_some_iff]
      · next other =>
        refine iff_of_false (by simp) ?_
        exact other rule.name
    · intro name same
      cases same
  | _ => simp [shape, ofValue?, single?]

theorem Entry.TieRule.shape_exact : TieRule.shape.Exact where
  decode?_encode rule _ := decode?_encode_tieRule rule
  decode?_eq_some_iff v rule := by
    rw [← TieRule.ofValue?_eq_some_iff]
    exact (and_iff_right trivial).symm
  decode?_eq_none_iff v := by
    have noForm : shape.Flaw v ↔ ∀ rule, ¬ shape.Form rule v := by
      simp [shape]
    rw [noForm, Option.eq_none_iff_forall_ne_some]
    exact forall_congr' fun rule => not_congr TieRule.ofValue?_eq_some_iff

/-! ## Records

The fields stand in the order in which an array has them. -/

def Reach.Policy.shape : Shape Policy :=
  .record [.of "seed_count" Policy.entryCount .number, .of "tie_break" Policy.tie TieRule.shape]

def Entry.Candidate.shape : Shape Candidate :=
  .record [.of "point" Candidate.point .number, .of "degree" Candidate.degree .number]

def Reach.EntryReach.shape : Shape EntryReach :=
  .record [.of "point" EntryReach.point .number, .of "degree" EntryReach.degree .number,
    .of "reachable" EntryReach.reached .number, .of "max_depth" EntryReach.depth .number]

def Component.Listing.shape : Shape Listing :=
  .record [.of "label" Listing.label .text, .of "member_count" Listing.memberCount .number,
    .of "components" Listing.components (.list (.list .number))]

def Reach.Coverage.shape : Shape Coverage :=
  .record [.of "label" Coverage.label .text, .of "member_count" Coverage.memberCount .number,
    .of "seeds" Coverage.entries (.list EntryReach.shape),
    .of "union_coverage" Coverage.covered .number]

def Diagnosis.shape : Shape Diagnosis :=
  .record [.of "components" Diagnosis.components Listing.shape,
    .of "reachability" Diagnosis.coverage Coverage.shape]

theorem Reach.Policy.shape_exact : Policy.shape.Exact := by
  refine record_exact (by decide) (fun _ => rfl) (fun _ => rfl) ?_
    (.next number_exact fun entryCount => .next TieRule.shape_exact fun tie =>
      .done ⟨entryCount, tie⟩ ?_)
  · rintro (_ | ⟨_, _ | ⟨_, _ | _⟩⟩) <;> simp [next, done]
  · rintro ⟨_, _⟩
    simp [eq_comm]

theorem Entry.Candidate.shape_exact : Candidate.shape.Exact := by
  refine record_exact (by decide) (fun _ => rfl) (fun _ => rfl) ?_
    (.next number_exact fun point => .next number_exact fun degree => .done ⟨point, degree⟩ ?_)
  · rintro (_ | ⟨_, _ | ⟨_, _ | _⟩⟩) <;> simp [next, done]
  · rintro ⟨_, _⟩
    simp [eq_comm]

theorem Reach.EntryReach.shape_exact : EntryReach.shape.Exact := by
  refine record_exact (by decide) (fun _ => rfl) (fun _ => rfl) ?_
    (.next number_exact fun point => .next number_exact fun degree =>
      .next number_exact fun reached => .next number_exact fun depth =>
        .done ⟨point, degree, reached, depth⟩ ?_)
  · rintro (_ | ⟨_, _ | ⟨_, _ | ⟨_, _ | ⟨_, _ | _⟩⟩⟩⟩) <;> simp [next, done]
  · rintro ⟨_, _, _, _⟩
    simp [eq_comm, and_assoc]

theorem Component.Listing.shape_exact : Listing.shape.Exact := by
  refine record_exact (by decide) (fun _ => rfl) (fun _ => rfl) ?_
    (.next text_exact fun label => .next number_exact fun memberCount =>
      .next (list_exact (list_exact number_exact)) fun components =>
        .done ⟨label, memberCount, components⟩ ?_)
  · rintro (_ | ⟨_, _ | ⟨_, _ | ⟨_, _ | _⟩⟩⟩) <;> simp [next, done]
  · rintro ⟨_, _, _⟩
    simp [eq_comm, and_assoc]

theorem Reach.Coverage.shape_exact : Coverage.shape.Exact := by
  refine record_exact (by decide) (fun _ => rfl) (fun _ => rfl) ?_
    (.next text_exact fun label => .next number_exact fun memberCount =>
      .next (list_exact EntryReach.shape_exact) fun entries => .next number_exact fun covered =>
        .done ⟨label, memberCount, entries, covered⟩ ?_)
  · rintro (_ | ⟨_, _ | ⟨_, _ | ⟨_, _ | ⟨_, _ | _⟩⟩⟩⟩) <;> simp [next, done]
  · rintro ⟨_, _, _, _⟩
    simp [eq_comm, and_assoc]

theorem Diagnosis.shape_exact : Diagnosis.shape.Exact := by
  refine record_exact (by decide) (fun _ => rfl) (fun _ => rfl) ?_
    (.next Listing.shape_exact fun components => .next Coverage.shape_exact fun coverage =>
      .done ⟨components, coverage⟩ ?_)
  · rintro (_ | ⟨_, _ | ⟨_, _ | _⟩⟩) <;> simp [next, done]
  · rintro ⟨_, _⟩
    simp [eq_comm]

/-- **All settings and reports** are written and read in their shapes. -/
theorem stored_exact : Policy.shape.Exact ∧ Candidate.shape.Exact ∧ EntryReach.shape.Exact ∧
    TieRule.shape.Exact ∧ Listing.shape.Exact ∧ Coverage.shape.Exact ∧ Diagnosis.shape.Exact :=
  ⟨Policy.shape_exact, Candidate.shape_exact, EntryReach.shape_exact, TieRule.shape_exact,
    Listing.shape_exact, Coverage.shape_exact, Diagnosis.shape_exact⟩

/-- An array in an object in an array, with the fields in another order and one more beside them. -/
example : decode? (.array [
      .object [("components", .array [.array [.integer 2]]), ("note", .null),
        ("member_count", .integer 1), ("label", .string "a")],
      .array [.string "a", .integer 1, .array [.array [.integer 2, .integer 0, .integer 1,
        .integer 0]], .integer 1]]) =
    some ({ components := ⟨"a", 1, [[2]]⟩, coverage := ⟨"a", 1, [⟨2, 0, 1, 0⟩], 1⟩ } : Diagnosis) :=
  rfl

end Navigability
