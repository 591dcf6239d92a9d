import Navigability.Proofs.Selection.Degree

/-!
# Admission of steps

A step is active when both its ends are members. Admission looks at the far end only: where a step
comes from matters for the text of a failure and for nothing else. From a member the two are the
same. From a point that is not selected no step is active, but steps to members are admitted. The
inner degree asks for both ends, so it counts the admitted entries of a row where the point is
selected, and is zero elsewhere.

## Main definitions

* `Selection.Active u v`: both ends of a step are members
* `Selection.admittedCount graph u`: the number of entries of a row that are admitted

## Main results

* `admits_eq_ok_true_iff`, `innerDegree_of_inside`: admission and degrees in terms of members
* `admission_exact`: at which points admission, activity and degrees agree
* `admitted_from_outside`: a point at which they do not
-/

namespace Navigability.Selection

variable {γ : Type} [Adjacency γ] {selection : Selection} {graph : γ} {u v : Nat}

/-- A step is active when it leads from a member to a member. -/
def Active (selection : Selection) (u v : Nat) : Prop :=
  selection.isMember u ∧ selection.isMember v

/-- How many entries of the row of a point are admitted, repeated entries counted each time. -/
def admittedCount (selection : Selection) (graph : γ) (u : Nat) : Nat :=
  (Adjacency.row graph u).countP fun v => selection.admits u v = .ok true

/-- A step is admitted when it leads to a member, wherever it comes from. -/
theorem admits_eq_ok_true_iff (u v : Nat) :
    selection.admits u v = .ok true ↔ selection.isMember v := by
  rcases Nat.lt_or_ge v selection.pointCount with inside | outside
  · rw [admits_of_lt u inside, Except.ok.injEq]
  · rw [admits_of_le u outside]
    exact iff_of_false nofun fun member => Nat.not_lt.2 outside (lt_of_isMember member)

theorem admittedCount_eq (selection : Selection) (graph : γ) (u : Nat) :
    selection.admittedCount graph u = selection.stepCount graph u := by
  rw [admittedCount, stepCount]
  exact List.countP_congr fun v _ => by rw [decide_eq_true_iff, admits_eq_ok_true_iff]

/-- Admission and activity differ at the steps that lead to a member from a point that is none. -/
theorem admits_iff_active_iff : (selection.admits u v = .ok true ↔ selection.Active u v) ↔
    selection.isMember u ∨ ¬ selection.isMember v := by
  rw [admits_eq_ok_true_iff, Active]
  by_cases source : selection.isMember u <;> simp [source]

/-- The degree of a point whose row names points only. -/
theorem innerDegree_of_inside
    (inside : ∀ v ∈ Adjacency.row graph u, v < selection.pointCount) :
    selection.innerDegree graph u =
      .ok (if selection.isMember u then selection.admittedCount graph u else 0) := by
  have intact : ¬ selection.Frays graph u := fun ⟨_, v, mem, outside⟩ =>
    Nat.not_lt.2 outside (inside v mem)
  rw [innerDegree_of_not_frays intact, admittedCount_eq]

/-- **Where admission, activity and degrees agree.** A step to a point is admitted when the point is
a member, and a step to any other number fails. So admission says of a step whether it is active
just when the step comes from a member or leads to none. If a row names points only, the degree is
the number of its admitted entries at a member, and zero elsewhere; so it is their number just when
the point is a member or no entry of its row is. -/
theorem admission_exact (selection : Selection) (graph : γ) (u : Nat) :
    (∀ v, v < selection.pointCount →
      (selection.admits u v = .ok true ↔ selection.isMember v) ∧
      ((selection.admits u v = .ok true ↔ selection.Active u v) ↔
        selection.isMember u ∨ ¬ selection.isMember v)) ∧
    (∀ v, selection.pointCount ≤ v →
      selection.admits u v = .error (.neighborOutOfRange u v selection.pointCount)) ∧
    ((∀ v ∈ Adjacency.row graph u, v < selection.pointCount) →
      selection.innerDegree graph u =
        .ok (if selection.isMember u then selection.admittedCount graph u else 0) ∧
      (selection.innerDegree graph u = .ok (selection.admittedCount graph u) ↔
        selection.isMember u ∨ ∀ v ∈ Adjacency.row graph u, ¬ selection.isMember v)) := by
  refine ⟨fun v _ => ⟨admits_eq_ok_true_iff u v, admits_iff_active_iff⟩,
    fun v => admits_of_le u, fun inside => ?_⟩
  have degree := innerDegree_of_inside inside
  refine ⟨degree, ?_⟩
  rw [degree, Except.ok.injEq]
  split
  · next member => exact iff_of_true rfl (.inl member)
  · next other =>
    rw [eq_comm, admittedCount_eq, stepCount, List.countP_eq_zero]
    simp [other]

/-- Rows with a loop and with repeated entries. -/
def inward : RowGraph := .ofRows [[1, 2, 1], [0, 1, 2, 2], [0]]

/-- The points of the inward graph but the first one. -/
def onInward : Selection := ⟨"inward", #[false, true, true]⟩

/-- From the second point, which is a member, and from the first one, which is none. -/
theorem admission_inward :
    (∀ v ∈ Adjacency.row inward 1, v < onInward.pointCount) ∧
    (onInward.admits 1 2 = .ok true ↔ onInward.Active 1 2) ∧
    onInward.innerDegree inward 1 = .ok (onInward.admittedCount inward 1) ∧
    (∀ v ∈ Adjacency.row inward 0, v < onInward.pointCount) ∧
    ¬ (onInward.admits 0 1 = .ok true ↔ onInward.Active 0 1) ∧
    onInward.innerDegree inward 0 = .ok 0 := by
  have inside : ∀ v ∈ Adjacency.row inward 1, v < onInward.pointCount := by decide
  have inside' : ∀ v ∈ Adjacency.row inward 0, v < onInward.pointCount := by decide
  obtain ⟨steps, -, degree⟩ := admission_exact onInward inward 1
  obtain ⟨steps', -, degree'⟩ := admission_exact onInward inward 0
  refine ⟨inside, (steps 2 (by decide)).2.2 (.inl rfl), (degree inside).2.2 (.inl rfl), inside',
    fun same => ?_, (degree' inside').1⟩
  rcases (steps' 1 (by decide)).2.1 same with source | target
  · cases source
  · exact target rfl

/-- **From a point that is not selected** a step to a member is admitted and not active, and the
degree of the point is not the number of its admitted entries. -/
theorem admitted_from_outside :
    ¬ (∀ v, v < onInward.pointCount →
        (onInward.admits 0 v = .ok true ↔ onInward.Active 0 v)) ∧
    (∀ v ∈ Adjacency.row inward 0, v < onInward.pointCount) ∧
    onInward.innerDegree inward 0 ≠ .ok (onInward.admittedCount inward 0) := by
  refine ⟨fun agree => ?_, by decide, by decide⟩
  obtain ⟨source, -⟩ := (agree 1 (by decide)).1 rfl
  cases source

end Navigability.Selection
