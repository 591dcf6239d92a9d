import Navigability.Proofs.Component.Reading
import Navigability.Proofs.Component.Stacks

/-!
# How many turns a component search makes

Every turn either enters a member that was not visited, or closes the top of the path, which never
comes onto the path again. So a search makes two turns for each member at most, one that enters it
and one that closes it. A root is not entered by a turn, so a search that is done has made exactly
as many turns less as it has entered roots. Between two turns the position of a row stays where it
is or moves on, and a turn reads on from there. So no entry of a row is read twice, and in a search
that is done every entry of every member's row was read. What a turn reads is what the recorded turn
writes down.

Positions are stored in 32 bits, so rows are to be shorter than that for all that is said about
positions.

## Main definitions

* `Passed`: a stage of a search, with the stages before it
* `turns`, `roots`, `entriesRead`: the turns that were made, the roots that were entered and the
  entries that were read from the stages that were passed
* `Snapshot.Closed`: a point that was visited and is not on the path any more
* `Advances`: what a turn that goes on has done for good
* `Orderly`: how a search goes about its rows

## Main results

* `Passed.balance`: the turns and the roots against the points that are visited
* `Passed.ledger`: the entries that were read against the positions
* `Stage.Sound.closed_for_good`: a point that is closed does not come onto the path again
* `rows_read_once`: a search is orderly at every stage, and comes to an end
-/

namespace Navigability.Component

open Attempt

variable {γ : Type} [Adjacency γ] {selection : Selection} {graph : γ} {buffers : Buffers}
  {passed : List Stage} {stage stage' : Stage} {s s' : Search} {v w : Nat}

/-- The stages of a search for the components of a selection, each with those before it. -/
inductive Passed (selection : Selection) (graph : γ) (buffers : Buffers) : List Stage → Stage → Prop
  | start {emptied : Buffers}
      (ready : Buffers.reset selection.pointCount buffers = .ok () emptied) :
    Passed selection graph buffers [] ⟨selection.members, { toBuffers := emptied }⟩
  | next {passed : List Stage} {stage stage' : Stage}
      (before : Passed selection graph buffers passed stage)
      (next : stage.Next selection graph stage') :
    Passed selection graph buffers (passed ++ [stage]) stage'

theorem Passed.course (before : Passed selection graph buffers passed stage) :
    Course selection graph buffers stage := by
  induction before with
  | start ready => exact .start ready
  | next _ next ih => exact ih.next next

theorem Course.exists_passed (course : Course selection graph buffers stage) :
    ∃ passed, Passed selection graph buffers passed stage := by
  induction course with
  | start ready => exact ⟨[], .start ready⟩
  | next _ next ih =>
    obtain ⟨passed, before⟩ := ih
    exact ⟨_, before.next next⟩

/-! ## What is counted -/

/-- Whether a search stands in front of a turn. -/
def Stage.isTurn (stage : Stage) : Bool := !stage.search.snapshot.path.isEmpty

/-- The root that is entered next, if the search stands in front of one that was not visited. -/
def Stage.root? (stage : Stage) : Option Nat :=
  match stage.search.snapshot.path, stage.roots with
  | [], root :: _ => if stage.search.snapshot.index root = 0 then some root else none
  | _, _ => none

/-- How many turns were made, or at least begun, from the given stages. -/
def turns (stages : List Stage) : Nat := stages.countP Stage.isTurn

/-- The roots that were entered from the given stages. -/
def roots (stages : List Stage) : List Nat := stages.filterMap Stage.root?

/-- The entries of rows that were read from the given stages, as the recorded turns write them
down. -/
def entriesRead (selection : Selection) (graph : γ) (stages : List Stage) : List (Nat × Nat) :=
  stages.flatMap fun stage => stage.search.slots selection graph

theorem entriesRead_concat (passed : List Stage) (stage : Stage) :
    entriesRead selection graph (passed ++ [stage]) =
      entriesRead selection graph passed ++ stage.search.slots selection graph := by
  simp [entriesRead, List.flatMap_append]

section Concat

variable {root : Nat} {rest below : List Nat}

/-- In front of a root no turn is made. -/
theorem turns_of_path_nil (passed : List Stage) (path : stage.search.snapshot.path = []) :
    turns (passed ++ [stage]) = turns passed := by
  simp [turns, Stage.isTurn, path]

theorem turns_of_path_cons (passed : List Stage) (path : stage.search.snapshot.path = v :: below) :
    turns (passed ++ [stage]) = turns passed + 1 := by
  simp [turns, Stage.isTurn, path]

/-- By a turn no root is entered. -/
theorem roots_of_path_cons (passed : List Stage) (path : stage.search.snapshot.path = v :: below) :
    roots (passed ++ [stage]) = roots passed := by
  simp [roots, Stage.root?, path]

theorem roots_of_visited (passed : List Stage) (path : s.snapshot.path = [])
    (visited : s.snapshot.index root ≠ 0) :
    roots (passed ++ [⟨root :: rest, s⟩]) = roots passed := by
  simp [roots, Stage.root?, path, visited]

theorem roots_of_fresh (passed : List Stage) (path : s.snapshot.path = [])
    (fresh : s.snapshot.index root = 0) :
    roots (passed ++ [⟨root :: rest, s⟩]) = roots passed ++ [root] := by
  simp [roots, Stage.root?, path, fresh]

end Concat

/-! ## Turns -/

/-- **The balance of a search**: every point that is visited was entered, by a turn or as a root,
and those of them that are not on the path any more were closed, each by a turn. -/
theorem Passed.balance (before : Passed selection graph buffers passed stage) :
    turns passed + (roots passed).length + stage.search.snapshot.path.length =
      2 * stage.search.snapshot.lastIndex := by
  have small := before.course.small
  induction before with
  | start ready =>
    rw [Buffers.reset_of_lt small] at ready
    cases ready
    rw [Snapshot.snapshot_blank]
    rfl
  | @next passed stage stage' before next ih =>
    cases next.change before.course.sound with
    | skip path visited =>
      rw [turns_of_path_nil passed path, roots_of_visited passed path visited]
      exact ih
    | @root root rest s s' path member fresh shown =>
      dsimp only at ih
      rw [turns_of_path_nil passed path, roots_of_fresh passed path fresh, List.length_append,
        shown]
      show turns passed + ((roots passed).length + 1) + (s.snapshot.path.length + 1) =
        2 * (s.snapshot.lastIndex + 1)
      omega
    | @turn _ s s' done turned =>
      dsimp only at ih
      cases turned with
      | entered path row settled member fresh shown =>
        rw [turns_of_path_cons passed path, roots_of_path_cons passed path, shown]
        show turns passed + 1 + (roots passed).length + (s.snapshot.path.length + 1) =
          2 * (s.snapshot.lastIndex + 1)
        omega
      | closed path settled shown =>
        rw [turns_of_path_cons passed path, roots_of_path_cons passed path, shown,
          Snapshot.close_path, Snapshot.close_lastIndex]
        show turns passed + 1 + (roots passed).length + s.snapshot.path.tail.length =
          2 * s.snapshot.lastIndex
        rw [path, List.length_cons] at ih
        rw [path, List.tail_cons]
        omega

/-- A search has numbered no more points than there are members, and all of them when all are
visited. -/
theorem Search.Sound.lastIndex_le (sound : s.Sound selection graph) :
    s.snapshot.lastIndex ≤ selection.memberCount ∧
      ((∀ p, selection.isMember p → s.snapshot.index p ≠ 0) →
        s.snapshot.lastIndex = selection.memberCount) := by
  have inv := sound.invariant
  have visited : ∀ p, p ∈ s.snapshot.trail ++ s.snapshot.components.flatten ↔
      s.snapshot.index p ≠ 0 := fun p => by rw [List.mem_append, inv.visited_iff]
  have listed : s.snapshot.trail ++ s.snapshot.components.flatten ⊆ selection.members :=
    fun p mem => Selection.mem_members_iff.2 (inv.member p ((visited p).1 mem))
  have le := inv.distinct.length_le_of_subset listed
  rw [← inv.count, selection.length_members] at le
  refine ⟨le, fun all => Nat.le_antisymm le ?_⟩
  have ge := selection.members_nodup.length_le_of_subset fun p mem =>
    (visited p).2 (all p (Selection.mem_members_iff.1 mem))
  rwa [← inv.count, selection.length_members] at ge

/-- The turns that were made, and the one to come if there is one, are at most two for each member.
A turn to come has a point on the path, which is entered and not closed. -/
theorem Passed.turns_le (before : Passed selection graph buffers passed stage) :
    turns (passed ++ [stage]) ≤ 2 * selection.memberCount := by
  have balance := before.balance
  have le := before.course.sound.search.lastIndex_le.1
  cases path : stage.search.snapshot.path with
  | nil =>
    rw [turns_of_path_nil passed path]
    omega
  | cons v below =>
    rw [path, List.length_cons] at balance
    rw [turns_of_path_cons passed path]
    omega

/-- A search that is done has made two turns for each member, less one for each root. -/
theorem Passed.turns_eq (before : Passed selection graph buffers passed stage)
    (done : stage.Done) :
    turns passed + (roots passed).length = 2 * selection.memberCount := by
  have balance := before.balance
  have empty : stage.search.snapshot.path = [] := List.map_eq_nil_iff.2 done.2
  rw [empty, List.length_nil, Nat.add_zero] at balance
  have all := fun p => before.course.visited_of_done (p := p) done
  rw [balance, before.course.sound.search.lastIndex_le.2 all]

/-! ## Points that are closed, and roots -/

/-- A point that is visited and is not on the path any more. -/
structure Snapshot.Closed (σ : Snapshot) (v : Nat) : Prop where
  visited : σ.index v ≠ 0
  left : v ∉ σ.path

/-- What is visited stays visited. -/
theorem Stage.Change.grows (change : stage.Change selection graph stage') :
    stage.search.snapshot.Grows stage'.search.snapshot := by
  cases change with
  | skip => exact .refl _
  | root path member fresh shown =>
    rw [shown]
    exact Snapshot.grows_enter fresh
  | turn turned =>
    cases turned with
    | entered path row settled member fresh shown =>
      rw [shown]
      exact (Snapshot.grows_readTo _).trans (Snapshot.grows_enter fresh)
    | closed path settled shown =>
      rw [shown]
      exact (Snapshot.grows_readTo _).trans (Snapshot.grows_close selection _)

/-- A point that comes onto the path was not visited, so it is none that was closed. -/
theorem Snapshot.Closed.enter {σ : Snapshot} (closed : σ.Closed v) (fresh : σ.index w = 0)
    (parent : Nat) : (σ.enter w parent).Closed v := by
  have other : v ≠ w := fun same => closed.visited (same ▸ fresh)
  exact ⟨(Snapshot.grows_enter fresh).visited v closed.visited,
    List.not_mem_cons_of_ne_of_not_mem other closed.left⟩

/-- What is closed stays closed. -/
theorem Stage.Change.closed (change : stage.Change selection graph stage')
    (closed : stage.search.snapshot.Closed v) : stage'.search.snapshot.Closed v := by
  have visited := change.grows.visited v closed.visited
  cases change with
  | skip => exact closed
  | @root root _ s s' path member fresh shown =>
    rw [shown]
    exact closed.enter fresh root
  | @turn _ s s' _ turned =>
    cases turned with
    | @entered u w below front back path row settled member fresh shown =>
      have read : (s.snapshot.readTo u (front.length + 1)).Closed v := ⟨closed.visited, closed.left⟩
      rw [shown]
      exact read.enter fresh u
    | closed path settled shown =>
      refine ⟨visited, ?_⟩
      rw [shown, Snapshot.close_path]
      exact fun mem => closed.left (List.mem_of_mem_tail mem)

/-- **A point that is closed** does not come onto the path again. -/
theorem Stage.Sound.closed_for_good (sound : stage.Sound selection graph)
    (closed : stage.search.snapshot.Closed v)
    (later : Relation.ReflTransGen (Stage.Next selection graph) stage stage') :
    v ∉ stage'.search.snapshot.path := by
  suffices carried : stage'.Sound selection graph ∧ stage'.search.snapshot.Closed v from
    carried.2.left
  induction later with
  | refl => exact ⟨sound, closed⟩
  | tail _ next ih => exact ⟨next.sound ih.1, (next.change ih.1).closed ih.2⟩

/-- The roots that were entered are members, visited, and each of them was entered once. -/
theorem Passed.roots_entered (before : Passed selection graph buffers passed stage) :
    (roots passed).Nodup ∧ ∀ root ∈ roots passed, selection.isMember root ∧
      stage.search.snapshot.index root ≠ 0 := by
  induction before with
  | start => simp [roots]
  | @next passed stage stage' before next ih =>
    obtain ⟨distinct, entered⟩ := ih
    have change := next.change before.course.sound
    have kept : ∀ root ∈ roots passed, selection.isMember root ∧
        stage'.search.snapshot.index root ≠ 0 := fun root mem =>
      ⟨(entered root mem).1, change.grows.visited root (entered root mem).2⟩
    cases change with
    | skip path visited =>
      rw [roots_of_visited passed path visited]
      exact ⟨distinct, kept⟩
    | @root root rest s s' path member fresh shown =>
      rw [roots_of_fresh passed path fresh]
      constructor
      · rw [← List.concat_eq_append]
        exact distinct.concat fun old => (entered root old).2 fresh
      · intro p mem
        rcases List.mem_append.1 mem with old | new
        · exact kept p old
        · rw [List.mem_singleton.1 new]
          refine ⟨member, ?_⟩
          rw [shown, Snapshot.enter_index_self]
          exact Nat.succ_ne_zero _
    | turn turned =>
      cases turned with
      | entered path =>
        rw [roots_of_path_cons passed path]
        exact ⟨distinct, kept⟩
      | closed path =>
        rw [roots_of_path_cons passed path]
        exact ⟨distinct, kept⟩

/-! ## Positions -/

section Positions

variable {σ : Snapshot}

theorem Snapshot.position_le_readTo {stop : Nat} (le : σ.position v ≤ stop)
    (fits : stop < UInt32.size) : σ.position ≤ (σ.readTo v stop).position := by
  intro p
  show σ.position p ≤ Function.update σ.position v (stop % UInt32.size) p
  rw [Function.update_apply, Nat.mod_eq_of_lt fits]
  split
  · next same => exact same ▸ le
  · exact Nat.le_refl _

theorem Snapshot.position_le_enter (unread : σ.position w = 0) (parent : Nat) :
    σ.position ≤ (σ.enter w parent).position := by
  intro p
  show σ.position p ≤ Function.update σ.position w 0 p
  rw [Function.update_apply]
  split
  · next same => rw [same, unread]
  · exact Nat.le_refl _

end Positions

section Short

variable (short : ∀ v, (Adjacency.row graph v).length < UInt32.size)

include short

/-- **From one stage to the next** no position moves back, and the ledger holds with the entries
that are read on the way. -/
theorem Stage.Change.keeps (change : stage.Change selection graph stage')
    (sound : stage.search.Sound selection graph) {read : List (Nat × Nat)}
    (ledger : stage.search.snapshot.Ledger graph read) :
    stage.search.snapshot.position ≤ stage'.search.snapshot.position ∧
      stage'.search.snapshot.Ledger graph (read ++ stage.search.slots selection graph) := by
  cases change with
  | skip path visited =>
    refine ⟨fun _ => Nat.le_refl _, ?_⟩
    rwa [slots_of_path_nil (List.map_eq_nil_iff.1 path), List.append_nil]
  | @root root roots s s' path member fresh shown =>
    simp only [shown]
    rw [slots_of_path_nil (List.map_eq_nil_iff.1 path), List.append_nil]
    exact ⟨Snapshot.position_le_enter (ledger.unread root fresh) root, ledger.enter fresh root⟩
  | @turn roots s s' done turned =>
    cases turned with
    | @entered v w below front back path row settled member fresh shown =>
      have unsettled := Snapshot.not_settled_iff.2 (.inr ⟨member, fresh⟩)
      have top := Snapshot.top_mem path
      have le := Nat.le_succ_of_le (position_le_of_unsettled sound path row unsettled)
      have fits : front.length + 1 < UInt32.size :=
        Nat.lt_of_le_of_lt (by simp [row]) (short v)
      have read' := ledger.readTo top (sound.invariant.visited_of_path top) le fits
      have forward := Snapshot.position_le_enter (read'.unread w fresh) v
      rw [slots_of_unsettled sound path row settled unsettled]
      simp only [shown]
      exact ⟨(Snapshot.position_le_readTo le fits).trans forward, read'.enter fresh v⟩
    | @closed v below path settled shown =>
      have top := Snapshot.top_mem path
      have le := sound.invariant.position_le v top
      have read' := ledger.readTo top (sound.invariant.visited_of_path top) le (short v)
      have whole : (s.snapshot.readTo v (Adjacency.row graph v).length).position v =
          (Adjacency.row graph v).length :=
        Snapshot.readTo_position_self.trans (Nat.mod_eq_of_lt (short v))
      rw [slots_of_settled sound path settled]
      simp only [shown]
      refine ⟨?_, read'.close path whole⟩
      rw [Snapshot.close_position]
      exact Snapshot.position_le_readTo le (short v)

/-- **The entries that were read** are those before the positions, at every stage. -/
theorem Passed.ledger (before : Passed selection graph buffers passed stage) :
    stage.search.snapshot.Ledger graph (entriesRead selection graph passed) := by
  have small := before.course.small
  induction before with
  | start ready =>
    rw [Buffers.reset_of_lt small] at ready
    cases ready
    rw [Snapshot.snapshot_blank]
    exact .blank
  | next before next ih =>
    have sound := before.course.sound
    rw [entriesRead_concat]
    exact ((next.change sound).keeps short sound.search ih).2

/-- No position has moved back since any of the stages before. -/
theorem Passed.position_le (before : Passed selection graph buffers passed stage) :
    ∀ earlier ∈ passed, earlier.search.snapshot.position ≤ stage.search.snapshot.position := by
  induction before with
  | start => simp
  | next before next ih =>
    have sound := before.course.sound
    have forward := ((next.change sound).keeps short sound.search (before.ledger short)).1
    intro earlier mem
    rcases List.mem_append.1 mem with old | new
    · exact (ih earlier old).trans forward
    · exact List.mem_singleton.1 new ▸ forward

end Short

/-! ## The discipline of a search -/

/-- What a turn that goes on has done for good: one member more is visited, or the top of the path
is closed and does not come onto the path again. -/
inductive Advances (selection : Selection) (graph : γ) (stage : Stage) (s' : Search) : Turn → Prop
  | discovers {w : Nat} (member : selection.isMember w) (fresh : stage.search.snapshot.index w = 0)
      (visited_iff : ∀ p, s'.snapshot.index p ≠ 0 ↔ p = w ∨ stage.search.snapshot.index p ≠ 0)
      (path : s'.snapshot.path = w :: stage.search.snapshot.path) :
    Advances selection graph stage s' (.entered w)
  | closes {v : Nat} (visited_iff : s'.snapshot.index = stage.search.snapshot.index)
      (path : stage.search.snapshot.path = v :: s'.snapshot.path)
      (forGood : ∀ later,
        Relation.ReflTransGen (Stage.Next selection graph) ⟨stage.roots, s'⟩ later →
          v ∉ later.search.snapshot.path) :
    Advances selection graph stage s' (.closed v)

/-- **A turn that goes on** has entered a member or closed the top for good. -/
theorem Stage.Sound.advances (sound : stage.Sound selection graph) {done : Turn}
    (ran : turn selection graph stage.search = .ok done s') (more : done ≠ .finished) :
    Advances selection graph stage s' done := by
  have sound' : Stage.Sound selection graph ⟨stage.roots, s'⟩ :=
    Stage.Next.sound (.turn ran more) sound
  cases sound.search.turned ran more with
  | @entered v w below front back path row settled member fresh shown =>
    refine .discovers member fresh (fun p => ?_) (by rw [shown]; rfl)
    rw [shown]
    by_cases same : p = w
    · rw [same, Snapshot.enter_index_self]
      simp
    · rw [Snapshot.enter_index_of_ne same]
      exact (or_iff_right same).symm
  | @closed v below path settled shown =>
    have index : s'.snapshot.index = stage.search.snapshot.index := by
      rw [shown, Snapshot.close_index]
      rfl
    have left : s'.snapshot.path = below := by
      rw [shown, Snapshot.close_path]
      exact congrArg List.tail path
    have inv := sound.search.invariant
    refine .closes index (path.trans (by rw [left])) fun later => sound'.closed_for_good ⟨?_, ?_⟩
    · show s'.snapshot.index v ≠ 0
      rw [index]
      exact inv.visited_of_path (Snapshot.top_mem path)
    · show v ∉ s'.snapshot.path
      rw [left]
      exact inv.top_not_mem path

/-- How a search goes about its rows, at a stage and on its way there. -/
structure Orderly (selection : Selection) (graph : γ) (passed : List Stage) (stage : Stage) :
    Prop where
  advances : ∀ done s', turn selection graph stage.search = .ok done s' → done ≠ .finished →
    Advances selection graph stage s' done
  turns_le : turns (passed ++ [stage]) ≤ 2 * selection.memberCount
  turns_eq : stage.Done → turns passed = 2 * selection.memberCount - (roots passed).length
  roots_distinct : (roots passed).Nodup
  roots_members : ∀ root ∈ roots passed, selection.isMember root
  settled : ∀ v ∈ stage.search.snapshot.path,
    ∀ w ∈ (Adjacency.row graph v).take (stage.search.snapshot.position v),
      w < selection.pointCount ∧ (selection.isMember w → stage.search.snapshot.index w ≠ 0)
  forward : ∀ earlier ∈ passed, ∀ v,
    earlier.search.snapshot.position v ≤ stage.search.snapshot.position v
  read_once : (entriesRead selection graph passed).Nodup
  read_all : stage.Done → ∀ v i, (v, i) ∈ entriesRead selection graph passed ↔
    selection.isMember v ∧ i < (Adjacency.row graph v).length

theorem Passed.orderly (short : ∀ v, (Adjacency.row graph v).length < UInt32.size)
    (before : Passed selection graph buffers passed stage) :
    Orderly selection graph passed stage := by
  have sound := before.course.sound
  have ledger := before.ledger short
  obtain ⟨distinct, entered⟩ := before.roots_entered
  constructor
  case advances => exact fun done s' => sound.advances
  case turns_le => exact before.turns_le
  case turns_eq =>
    intro done
    rw [← before.turns_eq done, Nat.add_sub_cancel]
  case roots_distinct => exact distinct
  case roots_members => exact fun root mem => (entered root mem).1
  case settled => exact sound.search.invariant.read_settled
  case forward => exact fun earlier mem v => before.position_le short earlier mem v
  case read_once => exact ledger.distinct
  case read_all =>
    intro done v i
    have visited := fun p => before.course.visited_of_done (p := p) done
    have empty : stage.search.snapshot.path = [] := List.map_eq_nil_iff.2 done.2
    rw [ledger.mem_iff]
    by_cases member : selection.isMember v
    · rw [ledger.closed v (visited v member) (by simp [empty])]
      exact (and_iff_right member).symm
    · have fresh : stage.search.snapshot.index v = 0 := by
        by_contra seen
        exact member (sound.search.invariant.member v seen)
      rw [ledger.unread v fresh]
      exact iff_of_false (Nat.not_lt_zero i) fun h => member h.1

/-- **A row is read once.** The stages of a search lead to its end, where it is done and returns a
listing or a row that strays has stopped it. At every stage a turn that goes on has visited one
member more or has closed the top of the path for good; with the turn to come there were at most two
turns for each member, and in a search that is done exactly two, less one for each root. What was
read of a row on the path is settled, no position moves back, no entry of a row was read twice, and
in a search that is done every entry of every member's row was read. What was read is what the
turns write down that are recorded, and these are the turns of the search. -/
theorem rows_read_once (graph : γ) (small : selection.pointCount < pointLimit)
    (short : ∀ v, (Adjacency.row graph v).length < UInt32.size) (buffers : Buffers) :
    Parallel Recorder.Records Recorder.Records (recordedTurn selection graph)
      (turn selection graph) ∧
    (∃ passed stage, Passed selection graph buffers passed stage ∧
      (stage.Done ∧ (selection.components graph buffers).result =
          .ok (stage.search.listing selection) ∨
        ∃ v w, stage.Fails selection graph v w ∧ (selection.components graph buffers).result =
          .error (.neighborOutOfRange v w selection.pointCount))) ∧
    ∀ passed stage, Passed selection graph buffers passed stage →
      Orderly selection graph passed stage := by
  refine ⟨recordedTurn_parallel selection graph, ?_,
    fun passed stage before => before.orderly short⟩
  obtain ⟨stage, course, ends⟩ := exists_course_end graph small buffers
  obtain ⟨passed, before⟩ := course.exists_passed
  refine ⟨passed, stage, before, ends.imp ?_ ?_⟩
  · rintro ⟨done, rest⟩
    exact ⟨done, by rw [course.components_eq, rest]; rfl⟩
  · rintro ⟨v, w, fails, rest⟩
    exact ⟨v, w, fails, by rw [course.components_eq, rest]; rfl⟩

/-- The stages of the search on the two cycles up to its end. Its one root is entered first, seven
turns follow, and the other members are left out. -/
def wholeWay : List Stage :=
  [⟨[0, 1, 3, 4], { toBuffers := Buffers.blank 5 }⟩] ++
    (List.range 7).map (fun n => ⟨[1, 3, 4], onTheWay n⟩) ++
    [⟨[1, 3, 4], onTheWay 7⟩, ⟨[3, 4], onTheWay 7⟩, ⟨[4], onTheWay 7⟩]

theorem passed_wholeWay : Passed onCycles twoCycles {} wholeWay ⟨[], onTheWay 7⟩ := by
  have ready : Buffers.reset onCycles.pointCount {} = .ok () (Buffers.blank 5) :=
    Buffers.reset_of_lt (by decide) _
  have found : stateAt 0 { toBuffers := Buffers.blank 5 } =
      .ok {} { toBuffers := Buffers.blank 5 } := rfl
  have entered : Passed onCycles twoCycles {} [⟨[0, 1, 3, 4], { toBuffers := Buffers.blank 5 }⟩]
      ⟨[1, 3, 4], onTheWay 0⟩ :=
    (Passed.start ready).next (.enter rfl found rfl (eq_ok_left (by decide +kernel)))
  have goesOn : ∀ n < 7, ∃ done, outcome (turn onCycles twoCycles (onTheWay n)) = .ok done ∧
      done ≠ .finished := by
    have moves : ∀ n < 7, outcome (turn onCycles twoCycles (onTheWay n)) =
        .ok ([.entered 1, .entered 3, .entered 4, .closed 4, .closed 3, .closed 1,
          .closed 0].getD n .finished) := by
      decide +kernel
    have more : ∀ n < 7, ([.entered 1, .entered 3, .entered 4, .closed 4, .closed 3, .closed 1,
        .closed 0] : List Turn).getD n .finished ≠ .finished := by
      decide
    exact fun n lt => ⟨_, moves n lt, more n lt⟩
  have turned : ∀ n ≤ 7, Passed onCycles twoCycles {}
      ([⟨[0, 1, 3, 4], { toBuffers := Buffers.blank 5 }⟩] ++
        (List.range n).map fun n => ⟨[1, 3, 4], onTheWay n⟩) ⟨[1, 3, 4], onTheWay n⟩ := by
    intro n
    induction n with
    | zero => exact fun _ => entered
    | succ n ih =>
      intro le
      obtain ⟨done, ran, more⟩ := goesOn n le
      rw [List.range_succ, List.map_append, ← List.append_assoc]
      exact (ih (Nat.le_of_succ_le le)).next (.turn (eq_ok_left ran) more)
  have visited : ∀ root ∈ [1, 3, 4], ∃ state, stateAt root (onTheWay 7) = .ok state (onTheWay 7) ∧
      state.index ≠ 0 := by
    intro root mem
    have inside : root < (onTheWay 7).points.size := by
      have size : (onTheWay 7).points.size = 5 := by decide +kernel
      have : ∀ root ∈ [1, 3, 4], root < 5 := by decide
      exact size ▸ this root mem
    refine ⟨_, stateAt_of_lt inside, ?_⟩
    revert root
    decide +kernel
  have path : (onTheWay 7).path = [] := by decide +kernel
  obtain ⟨_, found, seen⟩ := visited 1 (by simp)
  obtain ⟨_, found', seen'⟩ := visited 3 (by simp)
  obtain ⟨_, found'', seen''⟩ := visited 4 (by simp)
  exact (((turned 7 (Nat.le_refl _)).next (.skip path found seen)).next
    (.skip path found' seen')).next (.skip path found'' seen'')

/-- Four members and one root make seven turns, and all nine entries are read. -/
theorem read_once_twoCycles :
    onCycles.pointCount < pointLimit ∧
    (∀ v, (Adjacency.row twoCycles v).length < UInt32.size) ∧
    Passed onCycles twoCycles {} wholeWay ⟨[], onTheWay 7⟩ ∧
    Stage.Done ⟨[], onTheWay 7⟩ ∧
    Orderly onCycles twoCycles wholeWay ⟨[], onTheWay 7⟩ ∧
    roots wholeWay = [0] ∧ turns wholeWay = 7 ∧
    (entriesRead onCycles twoCycles wholeWay).length = 9 := by
  have small : onCycles.pointCount < pointLimit := by decide
  have short : ∀ v, (Adjacency.row twoCycles v).length < UInt32.size := by
    intro v
    have le : (Adjacency.row twoCycles v).length ≤ 3 := by
      rw [twoCycles, RowGraph.row_ofRows]
      rcases v with _ | _ | _ | _ | _ | v <;> simp
    exact Nat.lt_of_le_of_lt le (by decide)
  have done : Stage.Done ⟨[], onTheWay 7⟩ := ⟨rfl, by decide +kernel⟩
  have root : roots wholeWay = [0] := by decide +kernel
  obtain ⟨-, -, orderly⟩ := rows_read_once twoCycles small short {}
  have orderly := orderly _ _ passed_wholeWay
  refine ⟨small, short, passed_wholeWay, done, orderly, root, ?_, by decide +kernel⟩
  rw [orderly.turns_eq done, root]
  decide

end Navigability.Component
