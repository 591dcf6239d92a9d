import Navigability.Proofs.Component.Course

/-!
# What changes from one stage to the next

A turn that goes on reads the row of the top of the path up to the first member that is not visited,
and enters it; or it reads the row to its end and closes the top. Between two turns a root is left
out or entered. This is all that can happen from one stage of a search to the next, and it is said
here once, of the snapshots of the two stages.

## Main definitions

* `Turned s s' done`: what a turn that goes on has done
* `Stage.Change`: what has become of one stage in the next

## Main results

* `Search.Sound.turned`: a turn of a sound search that goes on
* `Stage.Next.change`: the way from a sound stage to the next
* `Course.visited_of_done`: a search that is done has visited all members
-/

namespace Navigability.Component

open Attempt

variable {γ : Type} [Adjacency γ] {selection : Selection} {graph : γ} {buffers : Buffers}
  {s s' : Search} {done : Turn}

/-- What a turn that goes on has done, read off the snapshots before and after it. -/
inductive Turned (selection : Selection) (graph : γ) (s s' : Search) : Turn → Prop
  | entered {v w : Nat} {below front back : List Nat} (path : s.snapshot.path = v :: below)
      (row : Adjacency.row graph v = front ++ w :: back)
      (settled : ∀ x ∈ front, s.snapshot.Settled selection x) (member : selection.isMember w)
      (fresh : s.snapshot.index w = 0)
      (shown : s'.snapshot = (s.snapshot.readTo v (front.length + 1)).enter w v) :
    Turned selection graph s s' (.entered w)
  | closed {v : Nat} {below : List Nat} (path : s.snapshot.path = v :: below)
      (settled : ∀ x ∈ Adjacency.row graph v, s.snapshot.Settled selection x)
      (shown : s'.snapshot = (s.snapshot.readTo v (Adjacency.row graph v).length).close selection v
        (Adjacency.row graph v)) :
    Turned selection graph s s' (.closed v)

/-- **A turn that goes on** enters the first member along the row that is not visited, or closes the
top. -/
theorem Search.Sound.turned (sound : s.Sound selection graph)
    (ran : turn selection graph s = .ok done s') (more : done ≠ .finished) :
    Turned selection graph s s' done := by
  cases path : s.snapshot.path with
  | nil =>
    rw [turn_finished path] at ran
    cases ran
    exact absurd rfl more
  | cons v below =>
    rcases Snapshot.exists_first_unsettled selection s.snapshot (Adjacency.row graph v) with
      settled | ⟨front, w, back, row, settled, unsettled⟩
    · obtain ⟨t, closed, -, shown⟩ := turn_closes sound path settled
      cases ran.symm.trans closed
      exact .closed path settled shown
    · rcases Snapshot.not_settled_iff.1 unsettled with outside | ⟨member, fresh⟩
      · cases ran.symm.trans (turn_strays sound path row settled outside)
      · obtain ⟨t, entered, -, shown⟩ := turn_enters sound path row settled member fresh
        cases ran.symm.trans entered
        exact .entered path row settled member fresh shown

/-- What has become of one stage in the next. -/
inductive Stage.Change (selection : Selection) (graph : γ) : Stage → Stage → Prop
  | skip {root : Nat} {roots : List Nat} {s : Search} (path : s.snapshot.path = [])
      (visited : s.snapshot.index root ≠ 0) :
    Change selection graph ⟨root :: roots, s⟩ ⟨roots, s⟩
  | root {root : Nat} {roots : List Nat} {s s' : Search} (path : s.snapshot.path = [])
      (member : selection.isMember root) (fresh : s.snapshot.index root = 0)
      (shown : s'.snapshot = s.snapshot.enter root root) :
    Change selection graph ⟨root :: roots, s⟩ ⟨roots, s'⟩
  | turn {roots : List Nat} {s s' : Search} {done : Turn}
      (turned : Turned selection graph s s' done) :
    Change selection graph ⟨roots, s⟩ ⟨roots, s'⟩

/-- **The way to the next stage**: a root is left out or entered, or a turn is made. -/
theorem Stage.Next.change {stage stage' : Stage} (next : stage.Next selection graph stage')
    (sound : stage.Sound selection graph) : stage.Change selection graph stage' := by
  obtain ⟨search, members⟩ := sound
  cases next with
  | @skip root roots s state path found visited =>
    rw [stateAt_of_lt (search.inside (List.forall_mem_cons.1 members).1)] at found
    cases found
    exact .skip (List.map_eq_nil_iff.2 path) fun zero => visited (UInt32.toNat_inj.1 zero)
  | @enter root roots s s' state path found fresh ran =>
    have member := (List.forall_mem_cons.1 members).1
    have path : s.snapshot.path = [] := List.map_eq_nil_iff.2 path
    rw [stateAt_of_lt (search.inside member)] at found
    cases found
    have unvisited : s.snapshot.index root = 0 := congrArg UInt32.toNat fresh
    obtain ⟨t, ran', -, shown⟩ := enter_root search path member unvisited
    cases ran.symm.trans ran'
    exact .root path member unvisited shown
  | turn ran more => exact .turn (search.turned ran more)

/-- **A search that is done** has visited all members: its rest is nothing, so the search from the
start has come to this state. -/
theorem Course.visited_of_done {stage : Stage} (course : Course selection graph buffers stage)
    (done : stage.Done) {p : Nat} (member : selection.isMember p) :
    stage.search.snapshot.index p ≠ 0 := by
  obtain ⟨roots, s⟩ := stage
  obtain ⟨rfl, path⟩ := done
  have ran := course.rest_eq
  rw [Stage.rest_of_path_nil path, searchRoots] at ran
  have ends := search_ends graph course.small
  rw [← ran] at ends
  cases ends with
  | done sound reached => exact reached.2 p member

end Navigability.Component
