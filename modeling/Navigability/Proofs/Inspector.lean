import Mathlib.Data.List.Induction
import Navigability.Inspector
import Navigability.Proofs.Component.Listing
import Navigability.Proofs.Reach.Coverage
import Navigability.Proofs.Workspace.History

/-!
# Inspectors answer one question at a time

An inspector is asked one question after another, about any labels, and some are answered with a
failure. What it holds beside its workspace never changes, and the traversals in its workspace are
always ready. So every answer is that of the analyses in storage that was not used. A diagnosis asks
for components and coverage together: it returns a failure just when the search does, since no row
frays that the search has read to the end, and the measurement reads no others. All that can keep
the measurement from its answer then is the room for its entry points.

## Main definitions

* `Inspector.Call`, `Inspector.Call.run`: a question, and its run on an inspector
* `Inspector.Call.fresh`: the answer of the analyses in storage that was not used
* `Inspector.asked`: the inspector after questions were asked
* `Inspector.InUse`: what questions keep of an inspector
* `Inspector.Faithful`: what the answers of an inspector are

## Main results

* `Inspector.diagnoseSelection_result`: a diagnosis is a search and then a measurement
* `Inspector.InUse.run`: what one question keeps
* `Inspector.InUse.diagnose_outcome`: a diagnosis fails as the search does, or for want of room
* `Inspector.asked_faithful`: the answers after any questions
-/

namespace Navigability

open Component Reach

namespace Inspector

/-- A question to an inspector. -/
inductive Call where
  | components (label : String)
  | coverage (label : String) (entryCount : Nat)
  | reach (label : String) (start : Nat)
  | diagnose (label : String)

namespace Call

/-- What a question is answered with when it succeeds. -/
def Answer : Call → Type
  | components _ => Listing
  | coverage _ _ => Coverage
  | reach _ _ => List Nat
  | diagnose _ => Diagnosis

instance : (call : Call) → DecidableEq call.Answer
  | components _ => inferInstanceAs (DecidableEq Listing)
  | coverage _ _ => inferInstanceAs (DecidableEq Coverage)
  | reach _ _ => inferInstanceAs (DecidableEq (List Nat))
  | diagnose _ => inferInstanceAs (DecidableEq Diagnosis)

variable {γ : Type} [Adjacency γ]

/-- The run of a question on an inspector. -/
def run [Memory] : (call : Call) → Inspector γ → Run (Inspector γ) TraceEntry call.Answer
  | components label, inspector => inspector.components label
  | coverage label entryCount, inspector => inspector.coverage label entryCount
  | reach label start, inspector => inspector.reach label start
  | diagnose label, inspector => inspector.diagnose label

/-- The answer to a question that the analyses give in storage that was not used, for the selection
of the label among the points of the graph. -/
def fresh [Memory] (graph : γ) (labels : LabelTable) (policy : Policy) :
    (call : Call) → Except Failure call.Answer
  | components label =>
    ((Selection.ofLabel labels label (Adjacency.pointCount graph)).components graph {}).result
  | coverage label entryCount =>
    ((Selection.ofLabel labels label (Adjacency.pointCount graph)).coverage graph
      { policy with entryCount } {}).result
  | reach label start =>
    ((Selection.ofLabel labels label (Adjacency.pointCount graph)).reach graph start {}).result
  | diagnose label => do
    let selection := Selection.ofLabel labels label (Adjacency.pointCount graph)
    let components ← (selection.components graph {}).result
    let coverage ← (selection.coverage graph policy {}).result
    return { components, coverage }

end Call

variable {γ : Type} [Adjacency γ]

/-- The inspector of a graph and a label table under a policy, after questions were asked. -/
def asked [Memory] (graph : γ) (labels : LabelTable) (policy : Policy) (calls : List Call) :
    Inspector γ :=
  calls.foldl (fun inspector call => (call.run inspector).state) { graph, labels, policy }

theorem asked_concat [Memory] (graph : γ) (labels : LabelTable) (policy : Policy)
    (calls : List Call) (call : Call) : asked graph labels policy (calls ++ [call]) =
      (call.run (asked graph labels policy calls)).state := by
  rw [asked, List.foldl_append]
  rfl

/-! ## One question -/

section Selection

variable (selection : Selection) (graph : γ) (policy : Policy) (workspace : Workspace)

/-- **A diagnosis** is a search and then a measurement, in the workspace that the search left. -/
theorem diagnoseSelection_result [Memory] :
    (diagnoseSelection policy selection graph workspace).result = do
      let components ← (workspace.components selection graph).result
      let coverage ←
        ((workspace.components selection graph).state.coverage selection graph policy).result
      return { components, coverage } := by
  rw [diagnoseSelection]
  obtain ⟨listed, searched, reports⟩ := workspace.components selection graph
  cases listed with
  | error failure => rfl
  | ok components =>
    show ((searched.coverage selection graph policy).result.map fun coverage => _) =
      (searched.coverage selection graph policy).result >>= _
    cases (searched.coverage selection graph policy).result <;> rfl

/-- After a search that failed there is no measurement. -/
theorem diagnoseSelection_state [Memory] :
    (diagnoseSelection policy selection graph workspace).state =
      match (workspace.components selection graph).result with
      | .error _ => (workspace.components selection graph).state
      | .ok _ =>
        ((workspace.components selection graph).state.coverage selection graph policy).state := by
  rw [diagnoseSelection]
  obtain ⟨listed, searched, reports⟩ := workspace.components selection graph
  cases listed <;> rfl

variable {selection workspace}

theorem visits_of_search_failed [Memory] {failure : Failure}
    (failed : (workspace.components selection graph).result = .error failure) :
    (diagnoseSelection policy selection graph workspace).state.visits = workspace.visits := by
  rw [diagnoseSelection_state, failed]
  rfl

variable {n : Nat} (small : selection.pointCount < pointLimit)
  (ready : workspace.visits.Ready n)

include small ready

/-- A diagnosis is answered with the components and the coverage of storage that was not used, as
the search does not touch the part that the measurement works on. -/
theorem diagnoseSelection_fresh [Memory] :
    (diagnoseSelection policy selection graph workspace).result = do
      let components ← (selection.components graph {}).result
      let coverage ← (selection.coverage graph policy {}).result
      return { components, coverage } := by
  have untouched : (workspace.components selection graph).state.visits.Ready n := ready
  rw [diagnoseSelection_result, Workspace.components_result graph small,
    Workspace.coverage_result graph small untouched]

/-- A diagnosis leaves the traversals ready, also when it fails. -/
theorem diagnoseSelection_ready [Memory] :
    ∃ m, (diagnoseSelection policy selection graph workspace).state.visits.Ready m := by
  have untouched : (workspace.components selection graph).state.visits.Ready n := ready
  rw [diagnoseSelection_state]
  cases (workspace.components selection graph).result with
  | error failure => exact ⟨n, untouched⟩
  | ok listing =>
    exact ⟨_, ((Task.coverage selection graph policy).run_step small untouched).2.2.2⟩

end Selection

/-! ## One question after another -/

/-- An inspector that questions may have been asked: only its workspace is another one, and the
traversals are ready. -/
inductive InUse (graph : γ) (labels : LabelTable) (policy : Policy) : Inspector γ → Prop
  | intro {workspace : Workspace} {n : Nat} (ready : workspace.visits.Ready n) :
    InUse graph labels policy { graph, labels, policy, workspace }

/-- What an inspector answers: what the analyses answer in storage that was not used, under the
policy it was made with. A diagnosis returns a failure as the search does and then leaves the
traversals alone; it is answered when the two analyses are, and with their answers. The measurement
after a search that succeeds returns no failure, and is answered if there is room for it. -/
structure Faithful [Memory] (graph : γ) (labels : LabelTable) (policy : Policy)
    (inspector : Inspector γ) : Prop where
  policy_eq : inspector.policy = policy
  answers : ∀ call : Call, (call.run inspector).result = call.fresh graph labels policy
  fails_iff : ∀ label failure, failure.Returned ∨
      Granted (.ofLabel labels label (Adjacency.pointCount graph)) policy →
    ((inspector.diagnose label).result = .error failure ↔
      (inspector.components label).result = .error failure)
  untouched : ∀ label failure, failure.Returned ∨
      Granted (.ofLabel labels label (Adjacency.pointCount graph)) policy →
    (inspector.diagnose label).result = .error failure →
    (inspector.diagnose label).state.workspace.visits = inspector.workspace.visits
  ok_iff : ∀ label diagnosis, (inspector.diagnose label).result = .ok diagnosis ↔
    (inspector.components label).result = .ok diagnosis.components ∧
      (inspector.coverage label policy.entryCount).result = .ok diagnosis.coverage
  measured : ∀ label listing, (inspector.components label).result = .ok listing →
    (∀ failure, failure.Returned →
      ((inspector.components label).state.coverage label policy.entryCount).result ≠
        .error failure) ∧
    (Granted (.ofLabel labels label (Adjacency.pointCount graph)) policy → ∃ coverage,
      ((inspector.components label).state.coverage label policy.entryCount).result =
        .ok coverage)

section InUse

variable {graph : γ} {labels : LabelTable} {policy : Policy} {inspector : Inspector γ}
  (small : Adjacency.pointCount graph < pointLimit)

include small

theorem pointCount_ofLabel_lt (labels : LabelTable) (label : String) :
    (Selection.ofLabel labels label (Adjacency.pointCount graph)).pointCount < pointLimit := by
  rwa [Selection.pointCount_ofLabel]

/-- **A question** leaves an inspector that can be asked the next one. -/
theorem InUse.run [Memory] (used : InUse graph labels policy inspector) (call : Call) :
    InUse graph labels policy (call.run inspector).state := by
  obtain ⟨ready⟩ := used
  have small := pointCount_ofLabel_lt small labels
  cases call with
  | components label => exact ⟨ready⟩
  | coverage label entryCount =>
    exact ⟨((Task.coverage _ graph { policy with entryCount }).run_step (small label)
      ready).2.2.2⟩
  | reach label start =>
    exact ⟨((Task.reach _ graph start).run_step (small label) ready).2.2.2⟩
  | diagnose label =>
    obtain ⟨m, left⟩ := diagnoseSelection_ready graph policy (small label) ready
    exact ⟨left⟩

theorem InUse.asked [Memory] (calls : List Call) :
    InUse graph labels policy (asked graph labels policy calls) := by
  induction calls using List.reverseRecOn with
  | nil => exact ⟨Buffers.ready_blank 0 #[]⟩
  | append_singleton calls call ih =>
    rw [asked_concat]
    exact ih.run small call

/-- **A question** is answered as in storage that was not used. -/
theorem InUse.result_eq_fresh [Memory] (used : InUse graph labels policy inspector) (call : Call) :
    (call.run inspector).result = call.fresh graph labels policy := by
  obtain ⟨ready⟩ := used
  have small := pointCount_ofLabel_lt small labels
  cases call with
  | components label => exact Workspace.components_result graph (small label)
  | coverage label entryCount =>
    exact Workspace.coverage_result graph (small label) ready { policy with entryCount }
  | reach label start => exact Workspace.reach_result graph (small label) ready start
  | diagnose label => exact diagnoseSelection_fresh graph policy (small label) ready

/-- Where the search has succeeded no row frays, so the measurement has an answer if it is given the
room that it asks for, and else ends there. -/
theorem fresh_coverage_of_searched [Memory] {label : String} {listing : Listing}
    (ok : (Call.components label).fresh graph labels policy = .ok listing) :
    (Granted (.ofLabel labels label (Adjacency.pointCount graph)) policy ∧ ∃ coverage,
      (Call.coverage label policy.entryCount).fresh graph labels policy = .ok coverage) ∨
    ¬ Granted (.ofLabel labels label (Adjacency.pointCount graph)) policy ∧
      (Call.coverage label policy.entryCount).fresh graph labels policy =
        .error (.fault (.outOfMemory (Entry.reservation policy.entryCount))) := by
  have small := pointCount_ofLabel_lt small labels label
  have intact := (Listing.sound_of_ok small ok).intact
  by_cases granted : Granted (.ofLabel labels label (Adjacency.pointCount graph)) policy
  · exact .inl ⟨granted, _, coverage_of_intact granted small intact _⟩
  · exact .inr ⟨granted, coverage_of_refused granted small intact _⟩

/-- **A diagnosis** fails as the search does, without a measurement, or both analyses succeed, or
the measurement after the search is not given the room that it asks for. -/
theorem InUse.diagnose_outcome [Memory] (used : InUse graph labels policy inspector)
    (label : String) :
    (∃ failure, (inspector.components label).result = .error failure ∧
      (inspector.diagnose label).result = .error failure ∧
      (inspector.diagnose label).state.workspace.visits = inspector.workspace.visits) ∨
    (∃ listing coverage, (inspector.components label).result = .ok listing ∧
      (inspector.coverage label policy.entryCount).result = .ok coverage ∧
      (inspector.diagnose label).result = .ok ⟨listing, coverage⟩) ∨
    ∃ listing cause, (inspector.components label).result = .ok listing ∧
      (inspector.coverage label policy.entryCount).result = .error (.fault cause) ∧
      (inspector.diagnose label).result = .error (.fault cause) ∧
      ¬ Granted (.ofLabel labels label (Adjacency.pointCount graph)) policy := by
  have searched : (inspector.components label).result = _ :=
    used.result_eq_fresh small (.components label)
  have measured : (inspector.coverage label policy.entryCount).result = _ :=
    used.result_eq_fresh small (.coverage label policy.entryCount)
  have diagnosed : (inspector.diagnose label).result = do
      let components ← (Call.components label).fresh graph labels policy
      let coverage ← (Call.coverage label policy.entryCount).fresh graph labels policy
      return { components, coverage } := used.result_eq_fresh small (.diagnose label)
  cases fresh : (Call.components label).fresh graph labels policy with
  | error failure =>
    rw [fresh] at searched diagnosed
    refine .inl ⟨failure, searched, diagnosed, ?_⟩
    obtain ⟨-⟩ := used
    exact visits_of_search_failed graph policy searched
  | ok listing =>
    rw [fresh] at searched
    rcases fresh_coverage_of_searched small fresh with
      ⟨-, coverage, outcome⟩ | ⟨refused, outcome⟩
    · rw [outcome] at measured
      rw [fresh, outcome] at diagnosed
      exact .inr (.inl ⟨listing, coverage, searched, measured, diagnosed⟩)
    · rw [outcome] at measured
      rw [fresh, outcome] at diagnosed
      exact .inr (.inr ⟨listing, _, searched, measured, diagnosed, refused⟩)

theorem InUse.faithful [Memory] (used : InUse graph labels policy inspector) :
    inspector.Faithful graph labels policy where
  policy_eq := by
    obtain ⟨-⟩ := used
    rfl
  answers := used.result_eq_fresh small
  fails_iff label failure heard := by
    rcases used.diagnose_outcome small label with
      ⟨failure', searched, diagnosed, -⟩ | ⟨listing, coverage, searched, -, diagnosed⟩ |
      ⟨listing, cause, searched, -, diagnosed, refused⟩
    · rw [searched, diagnosed, Except.error.injEq, Except.error.injEq]
    · rw [searched, diagnosed]
      exact iff_of_false nofun nofun
    · rw [searched, diagnosed, Except.error.injEq]
      refine iff_of_false (fun same => ?_) nofun
      subst same
      exact heard.elim id refused
  untouched label failure heard failed := by
    rcases used.diagnose_outcome small label with
      ⟨-, -, -, untouched⟩ | ⟨listing, coverage, -, -, diagnosed⟩ |
      ⟨listing, cause, -, -, diagnosed, refused⟩
    · exact untouched
    · cases diagnosed.symm.trans failed
    · cases diagnosed.symm.trans failed
      exact absurd heard (not_or_intro id refused)
  ok_iff label diagnosis := by
    rcases used.diagnose_outcome small label with
      ⟨failure, searched, diagnosed, -⟩ | ⟨listing, coverage, searched, measured, diagnosed⟩ |
      ⟨listing, cause, searched, measured, diagnosed, -⟩
    · rw [searched, diagnosed]
      exact iff_of_false nofun nofun
    · obtain ⟨components, covered⟩ := diagnosis
      rw [searched, measured, diagnosed]
      simp
    · rw [measured, diagnosed]
      exact iff_of_false nofun nofun
  measured label listing ok := by
    have fresh := (used.result_eq_fresh small (.components label)).symm.trans ok
    have next : ((inspector.components label).state.coverage label policy.entryCount).result = _ :=
      (used.run small (.components label)).result_eq_fresh small (.coverage label policy.entryCount)
    rw [next]
    rcases fresh_coverage_of_searched small fresh with
      ⟨-, coverage, outcome⟩ | ⟨refused, outcome⟩
    · rw [outcome]
      exact ⟨nofun, fun _ => ⟨coverage, rfl⟩⟩
    · rw [outcome]
      refine ⟨fun failure returned same => ?_, fun granted => absurd granted refused⟩
      cases same
      exact returned

end InUse

/-- **An inspector answers one question at a time.** After any questions, about any labels and
whether they failed or not, it holds the policy it was made with and answers as the analyses do in
storage that was not used. A diagnosis returns a failure just when the search does, the same one and
without touching the traversals, and where it is answered it is what the two analyses return. -/
theorem asked_faithful [Memory] (graph : γ) (labels : LabelTable) (policy : Policy)
    (small : Adjacency.pointCount graph < pointLimit) (calls : List Call) :
    (asked graph labels policy calls).Faithful graph labels policy :=
  (InUse.asked small calls).faithful small

/-- Two points that lead to each other, and a third that leads beyond the points. -/
def house : RowGraph := .ofRows [[1], [0], [0, 9]]

/-- The labels of the three points. -/
def inHouse : LabelTable := .ofRows [["cat"], ["cat"], ["dog"]]

theorem faithful_house :
    Adjacency.pointCount house < pointLimit ∧
    ((asked house inHouse {} [.diagnose "dog", .reach "cat" 7, .coverage "cat" 1]).diagnose
      "cat").result = .ok ⟨⟨"cat", 2, [[1, 0]]⟩, ⟨"cat", 2, [⟨0, 1, 2, 1⟩, ⟨1, 1, 2, 1⟩], 2⟩⟩ ∧
    ((asked house inHouse {} [.diagnose "cat"]).diagnose "dog").result =
      .error (.neighborOutOfRange 2 9 3) := by
  have small : Adjacency.pointCount house < pointLimit := by decide
  have cat := (asked_faithful house inHouse {} small
    [.diagnose "dog", .reach "cat" 7, .coverage "cat" 1]).answers (.diagnose "cat")
  have dog := (asked_faithful house inHouse {} small [.diagnose "cat"]).answers (.diagnose "dog")
  have found : (Call.diagnose "cat").fresh house inHouse {} =
      .ok ⟨⟨"cat", 2, [[1, 0]]⟩, ⟨"cat", 2, [⟨0, 1, 2, 1⟩, ⟨1, 1, 2, 1⟩], 2⟩⟩ := by
    decide +kernel
  have strayed : (Call.diagnose "dog").fresh house inHouse {} =
      .error (.neighborOutOfRange 2 9 3) := by
    decide +kernel
  exact ⟨small, cat.trans found, dog.trans strayed⟩

end Inspector

end Navigability
