import Mathlib.Order.Bounds.Basic
import Navigability.Proofs.Attempt
import Navigability.Proofs.Selection.Path
import Navigability.Selection.Degree

/-!
# Degrees are written up to the first row that frays

The degree of a member is the number of steps that leave it, repeated entries of its row counted
each time. Degrees are written in ascending order of the members. If no row frays, the degrees of
all members are written; else the least member whose row frays ends the writing, and the degrees of
the members before it stand.

## Main definitions

* `Selection.stepCount graph p`: the number of entries of a row that are members
* `Selection.degreeTable graph points`: the degrees of some points, and zero elsewhere
* `Selection.DegreesBelow graph bound`: the degrees of the members below a bound, and zero elsewhere

## Main results

* `storeDegrees_outcome`: what is written for a list of members
* `writeDegrees_of_intact`, `writeDegrees_of_frays`: what is written for a selection
* `writeDegrees_eq_ok_iff`: the degrees can be written just when no row frays
* `degrees_exact`: what the storage holds in success and in failure
-/

namespace Navigability.Selection

open Attempt

variable {γ : Type} [Adjacency γ] {selection : Selection} {graph : γ} {p w : Nat}

/-- How many entries of the row of a point are members, repeated entries counted each time. -/
def stepCount (selection : Selection) (graph : γ) (point : Nat) : Nat :=
  (Adjacency.row graph point).countP selection.isMember

/-! ## The degree of a point -/

theorem countAdmitted_of_inside (point : Nat) {row : List Nat}
    (inside : ∀ x ∈ row, x < selection.pointCount) (count : Nat) :
    selection.countAdmitted point row count = .ok (count + row.countP selection.isMember) := by
  induction row generalizing count with
  | nil => rfl
  | cons x row ih =>
    obtain ⟨here, inside⟩ := List.forall_mem_cons.1 inside
    rw [countAdmitted, admits_of_lt point here]
    show (if selection.isMember x then selection.countAdmitted point row (count + 1)
      else selection.countAdmitted point row count) = _
    rw [ih inside, ih inside, List.countP_cons]
    split
    · rw [Nat.add_right_comm, Nat.add_assoc]
    · rfl

theorem countAdmitted_of_cut (point : Nat) {front : List Nat} (back : List Nat)
    (inside : ∀ x ∈ front, x < selection.pointCount) (outside : selection.pointCount ≤ w)
    (count : Nat) : selection.countAdmitted point (front ++ w :: back) count =
      .error (.neighborOutOfRange point w selection.pointCount) := by
  induction front generalizing count with
  | nil =>
    rw [List.nil_append, countAdmitted, admits_of_le point outside]
    rfl
  | cons x front ih =>
    obtain ⟨here, inside⟩ := List.forall_mem_cons.1 inside
    rw [List.cons_append, countAdmitted, admits_of_lt point here]
    show (if selection.isMember x then
      selection.countAdmitted point (front ++ w :: back) (count + 1)
      else selection.countAdmitted point (front ++ w :: back) count) = _
    rw [ih inside, ih inside, ite_self]

theorem innerDegree_of_intact (member : selection.isMember p)
    (intact : ¬ selection.Frays graph p) :
    selection.innerDegree graph p = .ok (selection.stepCount graph p) := by
  rw [innerDegree, if_pos member,
    countAdmitted_of_inside p (fun _ => lt_of_not_frays member intact), Nat.zero_add]
  rfl

theorem innerDegree_of_strays (strays : selection.Strays graph p w) :
    selection.innerDegree graph p = .error (.neighborOutOfRange p w selection.pointCount) := by
  obtain ⟨front, back, row, before⟩ := strays.first
  rw [innerDegree, if_pos strays.member, row, countAdmitted_of_cut p back before strays.outside]

/-! ## The degrees of all points -/

/-- The degrees of the listed points, in 32 bits, and zero for all others. -/
def degreeTable (selection : Selection) (graph : γ) (points : List Nat) : Array UInt32 :=
  Array.ofFn fun p : Fin selection.pointCount =>
    if p.val ∈ points then UInt32.ofNat (selection.stepCount graph p) else 0

@[simp] theorem size_degreeTable (points : List Nat) :
    (selection.degreeTable graph points).size = selection.pointCount := by
  simp [degreeTable]

theorem degreeTable_nil (selection : Selection) (graph : γ) :
    selection.degreeTable graph [] = Array.replicate selection.pointCount 0 := by
  apply Array.ext <;> simp [degreeTable]

theorem getElem?_degreeTable {points : List Nat} (inside : p < selection.pointCount)
    (mem : p ∈ points) : (selection.degreeTable graph points)[p]? =
      some (UInt32.ofNat (selection.stepCount graph p)) := by
  simp [degreeTable, inside, mem]

theorem storeDegree_degreeTable (inside : p < selection.pointCount) (points : List Nat) :
    storeDegree p (selection.stepCount graph p) (selection.degreeTable graph points) =
      .ok () (selection.degreeTable graph (points ++ [p])) := by
  have h : p < (selection.degreeTable graph points).size := by simpa using inside
  rw [storeDegree, dif_pos h]
  congr 1
  apply Array.ext
  · simp
  · intro q _ _
    rw [Array.getElem_set]
    by_cases same : p = q
    · simp [degreeTable, same]
    · simp [degreeTable, same, Ne.symm same]

/-- **What is written** for some members, behind others: the degrees of all of them, or the degrees
of those before the first one whose row frays. -/
theorem storeDegrees_outcome (graph : γ) (written : List Nat) {points : List Nat}
    (members : ∀ p ∈ points, selection.isMember p) :
    ((∀ p ∈ points, ¬ selection.Frays graph p) ∧
        selection.storeDegrees graph points (selection.degreeTable graph written) =
          .ok () (selection.degreeTable graph (written ++ points))) ∨
      ∃ front p w back, points = front ++ p :: back ∧
        (∀ q ∈ front, ¬ selection.Frays graph q) ∧ selection.Strays graph p w ∧
        selection.storeDegrees graph points (selection.degreeTable graph written) =
          .error (.neighborOutOfRange p w selection.pointCount)
            (selection.degreeTable graph (written ++ front)) := by
  induction points generalizing written with
  | nil => exact .inl ⟨by simp, by rw [List.append_nil]; rfl⟩
  | cons p points ih =>
    obtain ⟨member, members⟩ := List.forall_mem_cons.1 members
    by_cases frays : selection.Frays graph p
    · obtain ⟨w, strays⟩ := frays_iff.1 frays
      refine .inr ⟨[], p, w, points, rfl, by simp, strays, ?_⟩
      rw [storeDegrees, innerDegree_of_strays strays, List.append_nil]
      rfl
    · have stored : selection.storeDegrees graph (p :: points)
          (selection.degreeTable graph written) =
            selection.storeDegrees graph points
              (selection.degreeTable graph (written ++ [p])) := by
        rw [storeDegrees, innerDegree_of_intact member frays]
        exact bind_of_ok (storeDegree_degreeTable (lt_of_isMember member) written)
      rw [stored]
      rcases ih (written ++ [p]) members with
        ⟨intact, ran⟩ | ⟨front, q, w, back, rfl, intact, strays, ran⟩
      · exact .inl ⟨List.forall_mem_cons.2 ⟨frays, intact⟩, by simpa using ran⟩
      · exact .inr ⟨p :: front, q, w, back, rfl, List.forall_mem_cons.2 ⟨frays, intact⟩, strays,
          by simpa using ran⟩

/-- The degrees are written over whatever the storage holds. -/
theorem writeDegrees_eq_store (selection : Selection) (graph : γ) (degrees : Array UInt32) :
    selection.writeDegrees graph degrees =
      selection.storeDegrees graph selection.members (selection.degreeTable graph []) := by
  have emptied : (modify fun degrees => refill degrees selection.pointCount 0 :
      Attempt (Array UInt32) PUnit) degrees = .ok () (selection.degreeTable graph []) := by
    rw [degreeTable_nil]
    exact congrArg (EStateM.Result.ok PUnit.unit) (refill_eq degrees _ _)
  rw [writeDegrees, bind_of_ok emptied]

/-- **If no row frays**, the degrees of all members are written. -/
theorem writeDegrees_of_intact (intact : ∀ p, ¬ selection.Frays graph p)
    (degrees : Array UInt32) : selection.writeDegrees graph degrees =
      .ok () (selection.degreeTable graph selection.members) := by
  rw [writeDegrees_eq_store]
  rcases selection.storeDegrees_outcome graph [] (fun _ => mem_members_iff.1) with
    ⟨-, ran⟩ | ⟨_, p, w, _, -, -, strays, -⟩
  · exact ran
  · exact absurd strays.frays (intact p)

/-- **If a row frays**, the least member whose row does ends the writing. -/
theorem writeDegrees_of_frays (frays : ∃ p, selection.Frays graph p) (degrees : Array UInt32) :
    ∃ p w, IsLeast {q | selection.Frays graph q} p ∧ selection.Strays graph p w ∧
      selection.writeDegrees graph degrees =
        .error (.neighborOutOfRange p w selection.pointCount)
          (selection.degreeTable graph (selection.members.filter (· < p))) := by
  rw [writeDegrees_eq_store]
  rcases selection.storeDegrees_outcome graph [] (fun _ => mem_members_iff.1) with
    ⟨intact, -⟩ | ⟨front, p, w, back, shape, intact, strays, ran⟩
  · obtain ⟨p, frays⟩ := frays
    exact absurd frays (intact p (mem_members_iff.2 frays.member))
  · have ascending := selection.members_ascending
    rw [shape, List.pairwise_append, List.pairwise_cons] at ascending
    obtain ⟨-, ⟨after, -⟩, before⟩ := ascending
    refine ⟨p, w, ⟨strays.frays, fun q frays => ?_⟩, strays, ?_⟩
    · have mem : q ∈ selection.members := mem_members_iff.2 frays.member
      rw [shape, List.mem_append, List.mem_cons] at mem
      rcases mem with early | rfl | late
      · exact absurd frays (intact q early)
      · exact Nat.le_refl q
      · exact Nat.le_of_lt (after q late)
    · have cut : selection.members.filter (· < p) = front := by
        rw [shape, List.filter_append, List.filter_eq_self.2, List.filter_eq_nil_iff.2,
          List.append_nil]
        · intro q mem
          rcases List.mem_cons.1 mem with rfl | late
          · simp
          · simpa using Nat.le_of_lt (after q late)
        · intro q early
          simpa using before q early p List.mem_cons_self
      rw [ran, cut, List.nil_append]

/-- The degrees can be written just when no row frays. -/
theorem writeDegrees_eq_ok_iff (degrees : Array UInt32) :
    outcome (selection.writeDegrees graph degrees) = .ok () ↔
      ∀ p, ¬ selection.Frays graph p := by
  by_cases frays : ∃ p, selection.Frays graph p
  · obtain ⟨p, w, least, -, ran⟩ := writeDegrees_of_frays frays degrees
    rw [ran]
    exact iff_of_false nofun fun intact => intact p least.1
  · have intact := not_exists.1 frays
    rw [writeDegrees_of_intact intact]
    exact iff_of_true rfl intact

/-! ## What the storage holds -/

/-- Storage of degrees for all points, in which the members below a bound have their degrees, in 32
bits, and all other points have zero. -/
structure DegreesBelow (selection : Selection) (graph : γ) (bound : Nat)
    (degrees : Array UInt32) : Prop where
  size : degrees.size = selection.pointCount
  member : ∀ p (h : p < degrees.size), selection.isMember p → p < bound →
    degrees[p].toNat = selection.stepCount graph p % UInt32.size
  other : ∀ p (h : p < degrees.size), ¬ (selection.isMember p ∧ p < bound) → degrees[p] = 0

theorem degreesBelow_degreeTable (graph : γ) {bound : Nat} {points : List Nat}
    (mem_iff : ∀ p, p ∈ points ↔ selection.isMember p ∧ p < bound) :
    selection.DegreesBelow graph bound (selection.degreeTable graph points) where
  size := size_degreeTable points
  member p h member below := by
    simp [degreeTable, (mem_iff p).2 ⟨member, below⟩]
  other p h away := by
    simp [degreeTable, mt (mem_iff p).1 away]

/-- If no row frays, every number has an inner degree; that of a number that is no member is
zero. -/
theorem innerDegree_of_not_frays (intact : ¬ selection.Frays graph p) :
    selection.innerDegree graph p =
      .ok (if selection.isMember p then selection.stepCount graph p else 0) := by
  split
  · next member => exact innerDegree_of_intact member intact
  · next other => rw [innerDegree, if_neg other]

/-- **Degrees are exact, also after a failure.** Whatever the storage held before, it has an entry
for each point afterwards. If no row frays, the entry of a member is its degree in 32 bits, and all
others are zero. If a row frays, the failure names the least member whose row does and the first
number in it that is no point; the members before that one have their degrees, and all others zero.
Degrees in storage of their own are the same degrees or the same failure, and those of single
numbers agree with them. -/
theorem degrees_exact (selection : Selection) (graph : γ) (degrees : Array UInt32) :
    ((∀ p, ¬ selection.Frays graph p) ∧
        outcome (selection.writeDegrees graph degrees) = .ok () ∧
        selection.DegreesBelow graph selection.pointCount
          (left (selection.writeDegrees graph degrees)) ∨
      ∃ p w, IsLeast {q | selection.Frays graph q} p ∧ selection.Strays graph p w ∧
        outcome (selection.writeDegrees graph degrees) =
          .error (.neighborOutOfRange p w selection.pointCount) ∧
        selection.DegreesBelow graph p (left (selection.writeDegrees graph degrees))) ∧
    selection.innerDegrees graph = (outcome (selection.writeDegrees graph degrees)).map
      (fun _ => left (selection.writeDegrees graph degrees)) ∧
    (outcome (selection.writeDegrees graph degrees) = .ok () → ∀ q, ∃ degree,
      selection.innerDegree graph q = .ok degree ∧
      (∀ h : q < (left (selection.writeDegrees graph degrees)).size,
        (left (selection.writeDegrees graph degrees))[q].toNat = degree % UInt32.size) ∧
      (selection.pointCount ≤ q → degree = 0)) := by
  have same : selection.writeDegrees graph #[] = selection.writeDegrees graph degrees := by
    rw [writeDegrees_eq_store, writeDegrees_eq_store]
  rw [innerDegrees, same]
  by_cases frays : ∃ p, selection.Frays graph p
  · obtain ⟨p, w, least, strays, ran⟩ := writeDegrees_of_frays frays degrees
    rw [ran]
    refine ⟨.inr ⟨p, w, least, strays, rfl, degreesBelow_degreeTable graph fun q => ?_⟩, rfl,
      nofun⟩
    simp
  · have intact := not_exists.1 frays
    rw [writeDegrees_of_intact intact]
    have table : selection.DegreesBelow graph selection.pointCount
        (selection.degreeTable graph selection.members) :=
      degreesBelow_degreeTable graph fun q => by
        rw [mem_members_iff]
        exact ⟨fun member => ⟨member, lt_of_isMember member⟩, And.left⟩
    refine ⟨.inl ⟨intact, rfl, table⟩, rfl, fun _ q => ⟨_, innerDegree_of_not_frays (intact q), ?_⟩⟩
    by_cases member : selection.isMember q
    · have inside := lt_of_isMember member
      rw [if_pos member]
      exact ⟨fun h => table.member q h member inside, fun outside => absurd inside (by omega)⟩
    · rw [if_neg member]
      refine ⟨fun h => ?_, fun _ => rfl⟩
      show (selection.degreeTable graph selection.members)[q].toNat = _
      rw [table.other q h fun counts => member counts.1]
      rfl

/-- Rows with a loop and with repeated entries. The last row names two numbers that are no points,
and so does the row of a point that is not selected. -/
def tattered : RowGraph := .ofRows [[2, 2, 0, 1], [7], [0, 3], [0, 9, 8]]

/-- The first two rows of the tattered graph. -/
def shortened : RowGraph := .ofRows [[2, 2, 0, 1], [7]]

/-- The points of the tattered graph but the second one. -/
def onTattered : Selection := ⟨"tattered", #[true, false, true, true]⟩

theorem degrees_tattered :
    (left (onTattered.writeDegrees tattered #[5, 5, 5, 5, 5, 5]) = #[3, 0, 2, 0] ∧
      onTattered.DegreesBelow tattered 3 #[3, 0, 2, 0] ∧
      onTattered.innerDegrees tattered = .error (.neighborOutOfRange 3 9 4)) ∧
    outcome (onTattered.writeDegrees shortened #[5]) = .ok () ∧
    ∃ degree, onTattered.innerDegree shortened 6 = .ok degree ∧ degree = 0 := by
  have written : left (onTattered.writeDegrees tattered #[5, 5, 5, 5, 5, 5]) = #[3, 0, 2, 0] := by
    decide
  have failed : outcome (onTattered.writeDegrees tattered #[5, 5, 5, 5, 5, 5]) =
      .error (.neighborOutOfRange 3 9 4) := by
    decide
  have ok : outcome (onTattered.writeDegrees shortened #[5]) = .ok () := by decide
  obtain ⟨ends, same, -⟩ := degrees_exact onTattered tattered #[5, 5, 5, 5, 5, 5]
  obtain ⟨-, -, single⟩ := degrees_exact onTattered shortened #[5]
  obtain ⟨degree, ran, -, outside⟩ := single ok 6
  rw [written, failed] at ends
  refine ⟨⟨written, ?_, by rw [same, failed]; rfl⟩, ok, degree, ran, outside (by decide)⟩
  rcases ends with ⟨-, ok, -⟩ | ⟨p, w, -, -, named, below⟩
  · cases ok
  · cases named
    exact below

end Navigability.Selection
