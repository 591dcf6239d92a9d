import Navigability.Proofs.Component.Snapshot

/-!
# The recursive component search

The textbook form of the component search. To visit a point is to number it, to put it on a stack,
and to go along its row. A member that is not visited yet is visited on the spot, and what it
reaches is taken over when the visit returns; a point on the stack is reached at once. A point that
reaches no smaller number than its own at the end of its row is a root, and the points on the stack
down to it are a component. The first number along a row that is no point ends everything.

There is neither a path nor a position in a row: where a visit goes on after another one is up to
the recursion. Every visit numbers one more member, so the recursion ends.

## Main definitions

* `State`: what the recursive search knows
* `visit`, `scan`: visit a point, and go along the rest of a row
* `along`: where going along the rest of a row leads
* `components`: the components that visits from all members put out

## Main results

* `along_stray`, `along_settled`, `along_fresh`: what going along a row does at its first entry
-/

namespace Navigability.Component.Recursive

open Function (update)

/-- What the recursive search knows. A point that is not visited has the number zero. -/
structure State where
  index : Nat → Nat
  low : Nat → Nat
  stack : List Nat
  lastIndex : Nat
  components : List (List Nat)

namespace State

variable (t : State) (v : Nat)

/-- Nothing is visited. -/
def blank : State where
  index _ := 0
  low _ := 0
  stack := []
  lastIndex := 0
  components := []

/-- A member that is not visited. -/
abbrev Fresh (selection : Selection) : Prop := selection.isMember v ∧ t.index v = 0

/-- Number a point and put it on the stack. -/
def enter : State :=
  { t with
    index := update t.index v (t.lastIndex + 1)
    low := update t.low v (t.lastIndex + 1)
    stack := v :: t.stack
    lastIndex := t.lastIndex + 1 }

/-- Lower what a point reaches. -/
def lower (low : Nat) : State := { t with low := update t.low v (min (t.low v) low) }

/-- Take over the number of a point that stands in the row of `v`, if it is on the stack. -/
def glance (w : Nat) : State := if w ∈ t.stack then t.lower v (t.index w) else t

/-- Put out the points down to `v` as a component, if it is a root. -/
def finish : State :=
  if t.low v = t.index v then
    { t with
      stack := (unstack v t.stack).2
      components := t.components ++ [(unstack v t.stack).1] }
  else t

/-- The members that are not visited. -/
def unvisited (selection : Selection) : List Nat :=
  selection.members.filter fun p => t.index p = 0

variable {t v} {selection : Selection}

@[simp] theorem finish_index : (t.finish v).index = t.index := by
  unfold finish
  split <;> rfl

@[simp] theorem finish_low : (t.finish v).low = t.low := by
  unfold finish
  split <;> rfl

@[simp] theorem glance_index {w : Nat} : (t.glance v w).index = t.index := by
  unfold glance
  split <;> rfl

theorem unvisited_congr {t' : State} (same : t'.index = t.index) :
    t'.unvisited selection = t.unvisited selection := by
  unfold unvisited
  rw [same]

/-- Entering a member leaves less to visit. -/
theorem unvisited_enter_lt (fresh : t.Fresh v selection) :
    ((t.enter v).unvisited selection).length < (t.unvisited selection).length := by
  have fewer : (t.enter v).unvisited selection = (t.unvisited selection).filter (· ≠ v) := by
    unfold unvisited
    rw [List.filter_filter]
    apply List.filter_congr
    intro p _
    by_cases same : p = v
    · simp [enter, same]
    · simp [enter, same]
  rw [fewer, List.length_filter_lt_length_iff_exists]
  refine ⟨v, ?_, by simp⟩
  rw [unvisited, List.mem_filter, Selection.mem_members_iff]
  exact ⟨fresh.1, by simp [fresh.2]⟩

/-- The states in which no fewer members are visited. -/
abbrev Later (selection : Selection) (t : State) : Type :=
  { t' : State // (t'.unvisited selection).length ≤ (t.unvisited selection).length }

end State

section Search

variable {γ : Type} [Adjacency γ] (selection : Selection) (graph : γ)

mutual

/-- Visit a member. -/
def visit (v : Nat) (t : State) (fresh : t.Fresh v selection) :
    Except Failure (t.Later selection) := do
  let ⟨t', le⟩ ← scan v (Adjacency.row graph v) (t.enter v)
  return ⟨t'.finish v, by
    rw [State.unvisited_congr State.finish_index]
    exact le.trans (Nat.le_of_lt (State.unvisited_enter_lt fresh))⟩
termination_by ((t.unvisited selection).length, 0)
decreasing_by exact Prod.Lex.left _ _ (State.unvisited_enter_lt fresh)

/-- Go along the rest of the row of `v`. -/
def scan (v : Nat) (row : List Nat) (t : State) : Except Failure (t.Later selection) :=
  match row with
  | [] => return ⟨t, Nat.le_refl _⟩
  | w :: row =>
    if selection.pointCount ≤ w then
      .error (.neighborOutOfRange v w selection.pointCount)
    else if fresh : t.Fresh w selection then do
      let ⟨t', le⟩ ← visit w t fresh
      let ⟨t'', le'⟩ ← scan v row (t'.lower v (t'.low w))
      return ⟨t'', le'.trans le⟩
    else do
      let ⟨t', le⟩ ← scan v row (t.glance v w)
      return ⟨t', le.trans (Nat.le_of_eq (by rw [State.unvisited_congr State.glance_index]))⟩
termination_by ((t.unvisited selection).length, row.length + 1)
decreasing_by
  · exact Prod.Lex.right _ (Nat.succ_pos _)
  · exact Prod.Lex.right' _ le (Nat.lt_succ_self _)
  · rw [State.unvisited_congr State.glance_index]
    exact Prod.Lex.right _ (Nat.lt_succ_self _)

end

/-- Visit those of the given members that are not visited when their turn comes. -/
def visitRoots : List Nat → State → Except Failure State
  | [], t => .ok t
  | root :: roots, t =>
    if fresh : t.Fresh root selection then do
      let ⟨t', _⟩ ← visit selection graph root t fresh
      visitRoots roots t'
    else visitRoots roots t

/-- The components that visits from all members, in ascending order, put out. -/
def components : Except Failure (List (List Nat)) :=
  (visitRoots selection graph selection.members .blank).map State.components

/-- Where going along the rest of the row of `v` leads. -/
def along (v : Nat) (row : List Nat) (t : State) : Except Failure State :=
  (scan selection graph v row t).map Subtype.val

end Search

variable {γ : Type} [Adjacency γ] {selection : Selection} {graph : γ} {v w : Nat}
  {row roots : List Nat} {t : State}

theorem along_nil : along selection graph v [] t = .ok t := by
  rw [along, scan]
  rfl

/-- Going along a row visits no fewer members than before. -/
theorem unvisited_along_le {t' : State} (ran : along selection graph v row t = .ok t') :
    (t'.unvisited selection).length ≤ (t.unvisited selection).length := by
  rw [along] at ran
  cases returned : scan selection graph v row t with
  | error failure =>
    rw [returned] at ran
    cases ran
  | ok later =>
    rw [returned] at ran
    exact Except.ok.inj ran ▸ later.property

theorem along_stray (outside : selection.pointCount ≤ w) :
    along selection graph v (w :: row) t =
      .error (.neighborOutOfRange v w selection.pointCount) := by
  rw [along, scan, if_pos outside]
  rfl

theorem along_settled (inside : w < selection.pointCount) (settled : ¬ t.Fresh w selection) :
    along selection graph v (w :: row) t = along selection graph v row (t.glance v w) := by
  rw [along, scan, if_neg (Nat.not_le.2 inside), dif_neg settled, along]
  cases scan selection graph v row (t.glance v w) <;> rfl

/-- A visit that fails ends the row, and one that returns leads on from where it returns. -/
theorem along_fresh (fresh : t.Fresh w selection) :
    along selection graph v (w :: row) t =
      (along selection graph w (Adjacency.row graph w) (t.enter w)).bind fun t' =>
        along selection graph v row ((t'.finish w).lower v ((t'.finish w).low w)) := by
  have inside := Selection.lt_of_isMember fresh.1
  rw [along, scan, if_neg (Nat.not_le.2 inside), dif_pos fresh, visit, along]
  cases scan selection graph w (Adjacency.row graph w) (t.enter w) with
  | error failure => rfl
  | ok returned =>
    obtain ⟨t', le⟩ := returned
    simp only [bind, pure, Except.bind, Except.pure, Except.map, along]
    cases scan selection graph v row ((t'.finish w).lower v ((t'.finish w).low w)) <;> rfl

theorem visitRoots_cons_visited {root : Nat} (visited : ¬ t.Fresh root selection) :
    visitRoots selection graph (root :: roots) t = visitRoots selection graph roots t := by
  rw [visitRoots, dif_neg visited]

theorem visitRoots_cons_fresh {root : Nat} (fresh : t.Fresh root selection) :
    visitRoots selection graph (root :: roots) t =
      (along selection graph root (Adjacency.row graph root) (t.enter root)).bind fun t' =>
        visitRoots selection graph roots (t'.finish root) := by
  rw [visitRoots, dif_pos fresh, visit, along]
  cases scan selection graph root (Adjacency.row graph root) (t.enter root) <;> rfl

end Navigability.Component.Recursive
