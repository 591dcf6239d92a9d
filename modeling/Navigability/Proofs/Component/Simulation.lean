import Navigability.Proofs.Component.Partition
import Navigability.Proofs.Component.Recursive

/-!
# The component search is the recursive one

Where the recursive search goes along the row of a point, the point is the top of the path, and the
turns from there on do what the recursive search does up to the return of the visit: whatever lies
below on the path stays as it was, and the turns go on from there. So the path is the call stack,
and the position of a point is where the visit of its row goes on.

The two differ in when a point is told what it reaches. The recursive search lowers the number while
it goes along the row; a turn reads the whole row once more when the point is closed. The numbers
are the same at the end of the row: while a point is visited only points entered later come off the
trail, so an entry that was read is on the trail later just when it was then, and a point that was
visited from here and is still on the trail has told its own number or a smaller one.

## Main definitions

* `Agrees t σ`: the recursive search and a snapshot have the same points on the same stack
* `Scanning`: both searches are at the same place in the row of the top
* `Returned`: both searches are done with the top

## Main results

* `along_simulated`: the turns from the place where both are do what the recursive search does
* `components_eq_recursive`: both searches return the same components or the same failure
-/

namespace Navigability.Component.Recursive

open Function (update)
open Attempt

variable {γ : Type} [Adjacency γ] {selection : Selection} {graph : γ} {s s' : Search}
  {t t' : State} {σ : Snapshot} {v w : Nat} {below front back : List Nat}

/-- The recursive search has the numbers, the stack and the components of a snapshot. -/
structure Agrees (t : State) (σ : Snapshot) : Prop where
  index : t.index = σ.index
  stack : t.stack = σ.trail
  lastIndex : t.lastIndex = σ.lastIndex
  components : t.components = σ.components

/-- Both searches have gone along a first part of the row of the top of the path. What the top
reaches from there is known to the recursive search, and is found in the row at the end by the
other one. -/
structure Scanning (selection : Selection) (graph : γ) (s : Search) (t : State) (v : Nat)
    (below front : List Nat) : Prop where
  sound : s.Sound selection graph
  path : s.snapshot.path = v :: below
  agrees : Agrees t s.snapshot
  settled : ∀ x ∈ front, s.snapshot.Settled selection x
  low_eq : t.low v = s.snapshot.lowest selection front (s.snapshot.low v)

/-- Both searches are done with the top of the path. The recursive search is at the end of its row,
and the other one has closed it and told the point below. -/
structure Returned (selection : Selection) (graph : γ) (s s' : Search) (t t' : State) (v : Nat)
    (below : List Nat) : Prop where
  sound : s'.Sound selection graph
  path : s'.snapshot.path = below
  agrees : Agrees (t'.finish v) s'.snapshot
  index_kept : ∀ x, s.snapshot.index x ≠ 0 → s'.snapshot.index x = s.snapshot.index x
  onTrail_kept : ∀ x, s.snapshot.index x ≠ 0 → s.snapshot.index x < s.snapshot.index v →
    s'.snapshot.onTrail x = s.snapshot.onTrail x
  low_told : ∀ u ∈ below.head?, s'.snapshot.low u = min (s.snapshot.low u) (t'.low v)
  low_below : ∀ u ∈ below.tail, s'.snapshot.low u = s.snapshot.low u
  low_kept : ∀ u, s.snapshot.index u ≠ 0 → u ≠ v → t'.low u = t.low u
  low_le : t'.low v ≤ s.snapshot.index v

/-- Both searches have visited `w` from the top `v` of the path, as `v` sees it. -/
structure Visited (s s' : Search) (t t' : State) (v w : Nat) (below : List Nat) : Prop where
  index_kept : ∀ x, s.snapshot.index x ≠ 0 → s'.snapshot.index x = s.snapshot.index x
  onTrail_kept : ∀ x, s.snapshot.index x ≠ 0 → s'.snapshot.onTrail x = s.snapshot.onTrail x
  low_told : s'.snapshot.low v = min (s.snapshot.low v) (t'.low w)
  low_below : ∀ u ∈ below, s'.snapshot.low u = s.snapshot.low u
  low_kept : ∀ u, s.snapshot.index u ≠ 0 → t'.low u = t.low u
  numbered : s'.snapshot.index w ≠ 0
  low_le : t'.low w ≤ s'.snapshot.index w

namespace Agrees

theorem fresh_iff (agrees : Agrees t σ) :
    t.Fresh w selection ↔ selection.isMember w ∧ σ.index w = 0 := by
  rw [State.Fresh, agrees.index]

theorem enter (agrees : Agrees t σ) (parent : Nat) :
    Agrees (t.enter w) (σ.enter w parent) where
  index := by
    show update t.index w (t.lastIndex + 1) = update σ.index w (σ.lastIndex + 1)
    rw [agrees.index, agrees.lastIndex]
  stack := congrArg (w :: ·) agrees.stack
  lastIndex := congrArg (· + 1) agrees.lastIndex
  components := agrees.components

theorem lower (agrees : Agrees t σ) (low : Nat) : Agrees (t.lower v low) σ :=
  ⟨agrees.index, agrees.stack, agrees.lastIndex, agrees.components⟩

theorem glance (agrees : Agrees t σ) : Agrees (t.glance v w) σ := by
  unfold State.glance
  split
  · exact agrees.lower _
  · exact agrees

/-- How far a row was read is known to one of the searches only. -/
theorem readTo (agrees : Agrees t σ) (stop : Nat) : Agrees t (σ.readTo v stop) :=
  ⟨agrees.index, agrees.stack, agrees.lastIndex, agrees.components⟩

/-- Both searches put out the same points at a root. -/
theorem close (agrees : Agrees t σ) {row : List Nat}
    (low : t.low v = σ.lowest selection row (σ.low v)) :
    Agrees (t.finish v) (σ.close selection v row) := by
  rw [State.finish, Snapshot.close, low, agrees.index]
  by_cases root : σ.lowest selection row (σ.low v) = σ.index v
  · rw [if_pos root, if_pos root]
    refine ⟨?_, ?_, ?_, ?_⟩
    · exact (σ.retire_index v _).symm
    · show (unstack v t.stack).2 = (unstack v (σ.retire v _).trail).2
      rw [agrees.stack, σ.retire_trail]
    · exact agrees.lastIndex.trans (σ.retire_lastIndex v _).symm
    · show t.components ++ [(unstack v t.stack).1] =
        (σ.retire v _).components ++ [(unstack v (σ.retire v _).trail).1]
      rw [agrees.stack, σ.retire_trail, agrees.components, σ.retire_components]
  · rw [if_neg root, if_neg root]
    refine ⟨?_, ?_, ?_, ?_⟩
    · exact agrees.index.trans (σ.retire_index v _).symm
    · exact agrees.stack.trans (σ.retire_trail v _).symm
    · exact agrees.lastIndex.trans (σ.retire_lastIndex v _).symm
    · exact agrees.components.trans (σ.retire_components v _).symm

end Agrees

/-! ## One entry of a row -/

namespace Scanning

/-- A point that was entered is at the start of its row. -/
theorem start (sound : s.Sound selection graph) {parent : Nat}
    (entered : s.snapshot = σ.enter w parent) (path : σ.path = below) (agrees : Agrees t σ) :
    Scanning selection graph s (t.enter w) w below [] := by
  refine ⟨sound, ?_, ?_, by simp, ?_⟩
  · rw [entered]
    exact congrArg (w :: ·) path
  · rw [entered]
    exact agrees.enter parent
  · rw [entered, Snapshot.lowest, Snapshot.enter_low_self]
    show update t.low w (t.lastIndex + 1) w = σ.lastIndex + 1
    rw [Function.update_self, agrees.lastIndex]

/-- At the end of the row the point is closed. How far the row was read does not matter for what is
found in it. -/
theorem closes (scanning : Scanning selection graph s t v below (Adjacency.row graph v)) :
    ∃ s', drain selection graph s = drain selection graph s' ∧
      Returned selection graph s s' t t v below := by
  obtain ⟨sound, path, agrees, settled, low_eq⟩ := scanning
  obtain ⟨s', ran, sound', shown⟩ := turn_closes sound path settled
  have read := sound.invariant.readTo (v := v) (Nat.le_refl _)
    fun x mem => settled x (List.mem_of_mem_take mem)
  have book := read.toBookkeeping
  have path' : (s.snapshot.readTo v (Adjacency.row graph v).length).path = v :: below := path
  have low : s.snapshot.lowest selection (Adjacency.row graph v) (s.snapshot.low v) =
      (s.snapshot.readTo v (Adjacency.row graph v).length).lowest selection
        (Adjacency.row graph v) (s.snapshot.low v) := by
    apply Snapshot.lowest_congr
    intro x _ _
    exact ⟨rfl, rfl⟩
  have found := low_eq.trans low
  refine ⟨s', drain_of_turn ran (by simp), ?_⟩
  constructor
  case sound => exact sound'
  case path =>
    rw [shown, Snapshot.close_path]
    show s.snapshot.path.tail = below
    rw [path, List.tail_cons]
  case agrees =>
    rw [shown]
    exact (agrees.readTo _).close found
  case index_kept =>
    intro x _
    rw [shown, Snapshot.close_index]
    rfl
  case onTrail_kept =>
    intro x _ early
    rw [shown, book.close_onTrail path' _ early]
    rfl
  case low_told =>
    intro u head
    rw [shown, Snapshot.close_low, found]
    cases shape : below with
    | nil => simp [shape] at head
    | cons parent rest =>
      rw [shape, List.head?_cons, Option.mem_some_iff] at head
      exact head ▸ book.retire_low_head path' _ shape
  case low_below =>
    intro u mem
    rw [shown, Snapshot.close_low]
    exact book.retire_low_tail path' _ mem
  case low_kept => exact fun _ _ _ => rfl
  case low_le =>
    rw [low_eq]
    exact Snapshot.lowest_le.trans (sound.invariant.low_le v (Snapshot.top_mem path))

/-- Past an entry that is settled both searches go on. -/
theorem glances (scanning : Scanning selection graph s t v below front)
    (settled : s.snapshot.Settled selection w) :
    Scanning selection graph s (t.glance v w) v below (front ++ [w]) := by
  have book := scanning.sound.invariant.toBookkeeping
  constructor
  case sound => exact scanning.sound
  case path => exact scanning.path
  case agrees => exact scanning.agrees.glance
  case settled =>
    intro x mem
    rcases List.mem_append.1 mem with before | same
    · exact scanning.settled x before
    · exact List.mem_singleton.1 same ▸ settled
  case low_eq =>
    rw [Snapshot.lowest_append, ← scanning.low_eq, State.glance, scanning.agrees.stack,
      scanning.agrees.index, Snapshot.lowest]
    by_cases trail : w ∈ s.snapshot.trail
    · have member := book.member w (book.visited_of_trail trail)
      rw [if_pos trail, if_pos ⟨member, (book.onTrail_iff w).2 trail⟩]
      exact Function.update_self ..
    · rw [if_neg trail, if_neg fun counts => trail ((book.onTrail_iff w).1 counts.2)]
      rfl

/-- A member that is not visited is entered. -/
theorem enters (scanning : Scanning selection graph s t v below front)
    (shape : Adjacency.row graph v = front ++ w :: back) (member : selection.isMember w)
    (fresh : s.snapshot.index w = 0) :
    ∃ s', drain selection graph s = drain selection graph s' ∧
      s'.snapshot = (s.snapshot.readTo v (front.length + 1)).enter w v ∧
      Scanning selection graph s' (t.enter w) w (v :: below) [] := by
  obtain ⟨s', ran, sound', shown⟩ :=
    turn_enters scanning.sound scanning.path shape scanning.settled member fresh
  exact ⟨s', drain_of_turn ran (by simp), shown,
    .start sound' shown scanning.path (scanning.agrees.readTo _)⟩

/-- The points of the path are visited. -/
theorem visited_of_path (scanning : Scanning selection graph s t v below front) :
    ∀ u ∈ v :: below, s.snapshot.index u ≠ 0 := by
  intro u mem
  rw [← scanning.path] at mem
  exact scanning.sound.invariant.visited_of_path mem

end Scanning

/-! ## The visit of an entry -/

section Visit

variable {r : Search} {t'' : State}

/-- What a visit leaves alone, seen from the point it was made from. -/
theorem Returned.visited (scanning : Scanning selection graph s t v below front)
    (fresh : s.snapshot.index w = 0)
    (entered : s'.snapshot = (s.snapshot.readTo v (front.length + 1)).enter w v)
    (returned : Returned selection graph s' r (t.enter w) t' w (v :: below)) :
    Visited s r t t' v w below := by
  have book := scanning.sound.invariant.toBookkeeping
  have off : ∀ {x}, s.snapshot.index x ≠ 0 → x ≠ w := fun visited same => visited (same ▸ fresh)
  have index : ∀ x, s.snapshot.index x ≠ 0 → s'.snapshot.index x = s.snapshot.index x := by
    intro x visited
    rw [entered, Snapshot.enter_index_of_ne (off visited)]
    rfl
  have low : ∀ x, s.snapshot.index x ≠ 0 → s'.snapshot.low x = s.snapshot.low x := by
    intro x visited
    rw [entered, Snapshot.enter_low_of_ne (off visited)]
    rfl
  have number : s'.snapshot.index w = s.snapshot.lastIndex + 1 := by
    rw [entered, Snapshot.enter_index_self]
    rfl
  have again : ∀ x, s.snapshot.index x ≠ 0 → s'.snapshot.index x ≠ 0 := by
    intro x visited
    rw [index x visited]
    exact visited
  have onPath := scanning.visited_of_path
  constructor
  case index_kept =>
    intro x visited
    rw [returned.index_kept x (again x visited), index x visited]
  case onTrail_kept =>
    intro x visited
    have early : s'.snapshot.index x < s'.snapshot.index w := by
      rw [index x visited, number]
      exact Nat.lt_succ_of_le (book.index_le x)
    rw [returned.onTrail_kept x (again x visited) early, entered]
    exact Function.update_of_ne (off visited) _ _
  case low_told =>
    rw [returned.low_told v rfl, low v (onPath v List.mem_cons_self)]
  case low_below =>
    intro u mem
    rw [returned.low_below u mem, low u (onPath u (List.mem_cons_of_mem v mem))]
  case low_kept =>
    intro u visited
    rw [returned.low_kept u (again u visited) (off visited)]
    exact Function.update_of_ne (off visited) _ _
  case numbered =>
    have nonzero : s'.snapshot.index w ≠ 0 := by
      rw [number]
      exact Nat.succ_ne_zero _
    rw [returned.index_kept w nonzero]
    exact nonzero
  case low_le =>
    have nonzero : s'.snapshot.index w ≠ 0 := by
      rw [number]
      exact Nat.succ_ne_zero _
    rw [returned.index_kept w nonzero]
    exact returned.low_le

/-- Behind the visit of an entry both searches go on along the row. The visit has told what its
point reaches, so finding the entry in the row lowers nothing. -/
theorem Scanning.resumes (scanning : Scanning selection graph s t v below front)
    (member : selection.isMember w) (visited : Visited s s' t t' v w below)
    (sound : s'.Sound selection graph) (path : s'.snapshot.path = v :: below)
    (agrees : Agrees (t'.finish w) s'.snapshot) :
    Scanning selection graph s' ((t'.finish w).lower v ((t'.finish w).low w)) v below
      (front ++ [w]) := by
  have top := scanning.visited_of_path v List.mem_cons_self
  constructor
  case sound => exact sound
  case path => exact path
  case agrees => exact agrees.lower _
  case settled =>
    intro x mem
    rcases List.mem_append.1 mem with before | same
    · obtain ⟨inside, settled⟩ := scanning.settled x before
      refine ⟨inside, fun member => ?_⟩
      rw [visited.index_kept x (settled member)]
      exact settled member
    · rw [List.mem_singleton.1 same]
      exact ⟨Selection.lt_of_isMember member, fun _ => visited.numbered⟩
  case low_eq =>
    have known : ((t'.finish w).lower v ((t'.finish w).low w)).low v =
        min (t.low v) (t'.low w) := by
      show update (t'.finish w).low v (min ((t'.finish w).low v) ((t'.finish w).low w)) v = _
      rw [Function.update_self, State.finish_low, visited.low_kept v top]
    have front_same : ∀ low, s'.snapshot.lowest selection front low =
        s.snapshot.lowest selection front low := by
      intro low
      apply Snapshot.lowest_congr
      intro x mem member
      have nonzero := (scanning.settled x mem).2 member
      exact ⟨visited.onTrail_kept x nonzero, visited.index_kept x nonzero⟩
    have told : s'.snapshot.lowest selection front (s'.snapshot.low v) =
        min (t.low v) (t'.low w) := by
      rw [visited.low_told, Snapshot.lowest_min, front_same, ← scanning.low_eq]
    rw [known, Snapshot.lowest_append, told, Snapshot.lowest_eq_self]
    intro x mem _ _
    rw [List.mem_singleton.1 mem]
    exact (Nat.min_le_right _ _).trans visited.low_le

/-- What was done before a return counts as done by it. -/
theorem Returned.after (scanning : Scanning selection graph s t v below front)
    (visited : Visited s s' t t' v w below)
    (returned : Returned selection graph s' r ((t'.finish w).lower v ((t'.finish w).low w)) t'' v
      below) : Returned selection graph s r t t'' v below := by
  have book := scanning.sound.invariant.toBookkeeping
  have onPath := scanning.visited_of_path
  have again : ∀ x, s.snapshot.index x ≠ 0 → s'.snapshot.index x ≠ 0 := by
    intro x nonzero
    rw [visited.index_kept x nonzero]
    exact nonzero
  have top := visited.index_kept v (onPath v List.mem_cons_self)
  constructor
  case sound => exact returned.sound
  case path => exact returned.path
  case agrees => exact returned.agrees
  case index_kept =>
    intro x nonzero
    rw [returned.index_kept x (again x nonzero), visited.index_kept x nonzero]
  case onTrail_kept =>
    intro x nonzero early
    rw [returned.onTrail_kept x (again x nonzero), visited.onTrail_kept x nonzero]
    rw [visited.index_kept x nonzero, top]
    exact early
  case low_told =>
    intro u head
    rw [returned.low_told u head, visited.low_below u (List.mem_of_mem_head? head)]
  case low_below =>
    intro u mem
    rw [returned.low_below u mem, visited.low_below u (List.mem_of_mem_tail mem)]
  case low_kept =>
    intro u nonzero other
    rw [returned.low_kept u (again u nonzero) other]
    show update (t'.finish w).low v _ u = t.low u
    rw [Function.update_of_ne other, State.finish_low, visited.low_kept u nonzero]
  case low_le =>
    rw [← top]
    exact returned.low_le

end Visit

/-! ## A whole row -/

/-- The turns from a place in a row do what the recursive search does from there: they fail as it
does, or go on with the path below when it is at the end of the row. -/
def Simulated (selection : Selection) (graph : γ) (s : Search) (t : State) (v : Nat)
    (below : List Nat) : Except Failure State → Prop
  | .error failure => ∃ s', drain selection graph s = .error failure s'
  | .ok t' => ∃ s', drain selection graph s = drain selection graph s' ∧
      Returned selection graph s s' t t' v below

theorem Simulated.after {outcome : Except Failure State}
    (scanning : Scanning selection graph s t v below front)
    (visited : Visited s s' t t' v w below)
    (drained : drain selection graph s = drain selection graph s')
    (simulated : Simulated selection graph s' ((t'.finish w).lower v ((t'.finish w).low w)) v below
      outcome) : Simulated selection graph s t v below outcome := by
  cases outcome with
  | error failure =>
    obtain ⟨r, failed⟩ := simulated
    exact ⟨r, drained.trans failed⟩
  | ok t'' =>
    obtain ⟨r, drained', returned⟩ := simulated
    exact ⟨r, drained.trans drained', returned.after scanning visited⟩

theorem Simulated.of_glance {outcome : Except Failure State}
    (simulated : Simulated selection graph s (t.glance v w) v below outcome) :
    Simulated selection graph s t v below outcome := by
  cases outcome with
  | error failure => exact simulated
  | ok t' =>
    obtain ⟨r, drained, returned⟩ := simulated
    refine ⟨r, drained, { returned with low_kept := ?_ }⟩
    intro u nonzero other
    rw [returned.low_kept u nonzero other, State.glance]
    split
    · exact Function.update_of_ne other _ _
    · rfl

/-- **The turns from a place in a row** do what the recursive search does from there. -/
theorem along_simulated (scanning : Scanning selection graph s t v below front)
    (shape : Adjacency.row graph v = front ++ back) :
    Simulated selection graph s t v below (along selection graph v back t) := by
  -- The induction follows the recursion of the search: on the number of members that are not
  -- visited, and for each number on the rest of the row.
  induction size : (t.unvisited selection).length using Nat.strong_induction_on
    generalizing s t v below front back with
  | h bound visits =>
    induction back generalizing t front with
    | nil =>
      rw [List.append_nil] at shape
      rw [along_nil]
      exact (shape ▸ scanning).closes
    | cons w back row =>
      have shape' : Adjacency.row graph v = (front ++ [w]) ++ back := by simp [shape]
      rcases Nat.lt_or_ge w selection.pointCount with inside | outside
      · by_cases fresh : t.Fresh w selection
        · obtain ⟨member, unvisited⟩ := scanning.agrees.fresh_iff.1 fresh
          obtain ⟨r, drained, entered, scanning'⟩ := scanning.enters shape member unvisited
          have less := State.unvisited_enter_lt fresh
          have visit := visits _ (size ▸ less) scanning' (List.nil_append _).symm rfl
          rw [along_fresh fresh]
          cases ran : along selection graph w (Adjacency.row graph w) (t.enter w) with
          | error failure =>
            rw [ran] at visit
            obtain ⟨r', failed⟩ := visit
            exact ⟨r', drained.trans failed⟩
          | ok t' =>
            rw [ran] at visit
            obtain ⟨r', drained', returned⟩ := visit
            have visited := returned.visited scanning unvisited entered
            have fewer :
                (((t'.finish w).lower v ((t'.finish w).low w)).unvisited selection).length <
                  bound := by
              have kept : ((t'.finish w).lower v ((t'.finish w).low w)).index = t'.index :=
                State.finish_index
              rw [State.unvisited_congr kept, ← size]
              exact Nat.lt_of_le_of_lt (unvisited_along_le ran) less
            have resumed := scanning.resumes member visited returned.sound returned.path
              returned.agrees
            exact .after scanning visited (drained.trans drained')
              (visits _ fewer resumed shape' rfl)
        · have settled : s.snapshot.Settled selection w :=
            ⟨inside, fun member zero => fresh (scanning.agrees.fresh_iff.2 ⟨member, zero⟩)⟩
          rw [along_settled inside fresh]
          refine .of_glance (row (scanning.glances settled) shape' ?_)
          rw [State.unvisited_congr State.glance_index, size]
      · rw [along_stray outside]
        exact ⟨s, drain_of_error
          (turn_strays scanning.sound scanning.path shape scanning.settled outside)⟩

/-! ## The search from every root -/

theorem visitRoots_simulated {roots : List Nat}
    (members : ∀ root ∈ roots, selection.isMember root) (sound : s.Sound selection graph)
    (path : s.snapshot.path = []) (agrees : Agrees t s.snapshot) :
    match visitRoots selection graph roots t with
    | .error failure => ∃ s', searchRoots selection graph roots s = .error failure s'
    | .ok t' => ∃ s', searchRoots selection graph roots s = .ok () s' ∧ Agrees t' s'.snapshot := by
  induction roots generalizing s t with
  | nil => exact ⟨s, rfl, agrees⟩
  | cons root roots ih =>
    obtain ⟨member, members⟩ := List.forall_mem_cons.1 members
    have inside := sound.inside member
    by_cases fresh : t.Fresh root selection
    · have unvisited := (agrees.fresh_iff.1 fresh).2
      obtain ⟨r, ran, sound', shown⟩ := enter_root sound path member unvisited
      have scanning : Scanning selection graph r (t.enter root) root [] [] :=
        .start sound' shown path agrees
      have visit := along_simulated scanning (List.nil_append _).symm
      rw [visitRoots_cons_fresh fresh, searchRoots_cons_fresh inside unvisited, bind_of_ok ran]
      cases visited : along selection graph root (Adjacency.row graph root) (t.enter root) with
      | error failure =>
        rw [visited] at visit
        obtain ⟨r', failed⟩ := visit
        exact ⟨r', bind_of_error failed⟩
      | ok t' =>
        rw [visited] at visit
        obtain ⟨r', drained, returned⟩ := visit
        rw [drain_of_path_nil returned.path] at drained
        rw [bind_of_ok drained]
        exact ih members returned.sound returned.path returned.agrees
    · have visited : s.snapshot.index root ≠ 0 := fun zero =>
        fresh (agrees.fresh_iff.2 ⟨member, zero⟩)
      rw [visitRoots_cons_visited fresh, searchRoots_cons_visited inside visited]
      exact ih members sound path agrees

/-- Where visits from all members return, the search returns what they have put out. -/
theorem components_of_visited {t : State} (small : selection.pointCount < pointLimit)
    (visited : visitRoots selection graph selection.members .blank = .ok t) (buffers : Buffers) :
    (selection.components graph buffers).result =
      .ok ⟨selection.label, selection.memberCount, t.components⟩ := by
  have blank : Search.Sound selection graph { toBuffers := Buffers.blank selection.pointCount } :=
    .blank small
  have shown := Snapshot.snapshot_blank selection.pointCount
  have simulated := visitRoots_simulated (fun root => Selection.mem_members_iff.1) blank
    (by rw [shown]; rfl) (show Agrees .blank _ by rw [shown]; exact ⟨rfl, rfl, rfl, rfl⟩)
  rw [visited] at simulated
  obtain ⟨s, ran, agrees⟩ := simulated
  rw [components_of_search buffers small ran, Search.listing, agrees.components]

/-- **The component search is the recursive one**, whatever storage it finds: it returns the same
components in the same order, each with its points in the same order, or the same failure. -/
theorem components_eq_recursive (graph : γ) (buffers : Buffers)
    (small : selection.pointCount < pointLimit) :
    (selection.components graph buffers).result.map Listing.components =
      components selection graph := by
  have blank : Search.Sound selection graph { toBuffers := Buffers.blank selection.pointCount } :=
    .blank small
  have shown := Snapshot.snapshot_blank selection.pointCount
  have agrees : Agrees .blank
      (Search.snapshot { toBuffers := Buffers.blank selection.pointCount }) := by
    rw [shown]
    exact ⟨rfl, rfl, rfl, rfl⟩
  have path : (Search.snapshot { toBuffers := Buffers.blank selection.pointCount }).path = [] := by
    rw [shown]
    rfl
  have simulated := visitRoots_simulated (fun root => Selection.mem_members_iff.1) blank path agrees
  rw [Selection.components, Buffers.reset_of_lt small, components]
  cases visited : visitRoots selection graph selection.members .blank with
  | error failure =>
    rw [visited] at simulated
    obtain ⟨s, ran⟩ := simulated
    simp only [ran]
    rfl
  | ok t =>
    rw [visited] at simulated
    obtain ⟨s, ran, agrees⟩ := simulated
    simp only [ran]
    exact congrArg Except.ok agrees.components.symm

theorem recursive_twoCycles :
    onCycles.pointCount < pointLimit ∧
      components onCycles twoCycles = .ok [[4, 3], [1, 0]] := by
  have small : onCycles.pointCount < pointLimit := by decide
  refine ⟨small, ?_⟩
  rw [← components_eq_recursive twoCycles {} small, components_twoCycles]
  rfl

end Navigability.Component.Recursive
