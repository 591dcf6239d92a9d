import Navigability.Failure

/-!
# Runs

A run is what an analysis comes to: its result, the state it left, and what it reported, in order.
A run that failed has a state and reports as well.

## Main definitions

* `Run σ ε α`: a run on states `σ` with reports `ε` and results `α`
* `Run.mapState`, `Run.mapReports`, `Run.reportFirst`: a run seen as part of a larger one
-/

namespace Navigability

/-- The outcome of a run: its result, the state it left, and its reports in order. -/
structure Run (σ ε α : Type) where
  result : Except Failure α
  state : σ
  reports : List ε

namespace Run

variable {σ τ ε δ α : Type}

/-- A run whose state is part of a larger one. -/
def mapState (f : σ → τ) (run : Run σ ε α) : Run τ ε α :=
  { result := run.result, state := f run.state, reports := run.reports }

/-- A run whose reports are put into another form. -/
def mapReports (f : ε → δ) (run : Run σ ε α) : Run σ δ α :=
  { result := run.result, state := run.state, reports := run.reports.map f }

/-- A run with more reports in front. -/
def reportFirst (reports : List ε) (run : Run σ ε α) : Run σ ε α :=
  { result := run.result, state := run.state, reports := reports ++ run.reports }

end Run

end Navigability
