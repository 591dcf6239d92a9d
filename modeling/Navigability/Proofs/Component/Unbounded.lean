import Navigability.Proofs.Component.Reading
import Navigability.Proofs.Component.Stacks

/-!
# A component search with numbers that have no bound

The storage of a component search keeps every number in 32 bits. Here the same search is made with
numbers that have no bound, and it is written down which points it enters, in order. The search in
storage does what this one does: at every stage its storage says what the numbers without a bound
say. Of the position in a row it keeps the remainder, which is the position itself unless the row is
too long, and of everything else the number. For a point that was entered has its place among the
points that were entered as its number, no point is entered twice, and only members are entered.

## Main definitions

* `Snapshot.leaveAt`: remember how far a row was read, with a position that has no bound
* `Snapshot.stored`: what 32 bits keep of a snapshot
* `Unbounded`: the states of a search with numbers that have no bound
* `Snapshot.Numbered`, `Snapshot.Resumes`: how points are numbered, and where rows are left
* `Stage.Lossless`: a stage whose storage has lost nothing

## Main results

* `Stage.Change.mirrors`: from one stage to the next the storage says what the numbers say
* `Course.lossless`: no stage of a search has lost anything
-/

namespace Navigability.Component

open Function (update)

variable {γ : Type} [Adjacency γ] {selection : Selection} {graph : γ} {buffers : Buffers}
  {stage stage' : Stage} {s : Search} {τ : Snapshot} {v w parent stop : Nat}
  {row front back below entered roots : List Nat}

namespace Snapshot

/-- Remember how far the row of a point was read, whatever the position is. -/
def leaveAt (τ : Snapshot) (point stop : Nat) : Snapshot :=
  { τ with position := update τ.position point stop }

/-- What 32 bits keep of a snapshot: of a position the remainder, and all else as it is. -/
def stored (τ : Snapshot) : Snapshot :=
  { τ with position := fun point => τ.position point % UInt32.size }

end Snapshot

/-- The states of a search with numbers that have no bound: the roots to come, the points that were
entered, in order, and what is known. -/
inductive Unbounded (selection : Selection) (graph : γ) : List Nat → List Nat → Snapshot → Prop
  | start : Unbounded selection graph selection.members [] .blank
  /-- With an empty path, a root that was visited is left out. -/
  | skip {root : Nat} {roots entered : List Nat} {τ : Snapshot}
      (before : Unbounded selection graph (root :: roots) entered τ) (path : τ.path = [])
      (visited : τ.index root ≠ 0) : Unbounded selection graph roots entered τ
  /-- With an empty path, a root that was not visited is entered. -/
  | root {root : Nat} {roots entered : List Nat} {τ : Snapshot}
      (before : Unbounded selection graph (root :: roots) entered τ) (path : τ.path = [])
      (fresh : τ.index root = 0) :
    Unbounded selection graph roots (entered ++ [root]) (τ.enter root root)
  /-- The row of the top is read on to the first member that is not visited, which is entered. -/
  | enters {v w : Nat} {below front back roots entered : List Nat} {τ : Snapshot}
      (before : Unbounded selection graph roots entered τ) (path : τ.path = v :: below)
      (rest : (Adjacency.row graph v).drop (τ.position v) = front ++ w :: back)
      (settled : ∀ x ∈ front, τ.Settled selection x) (member : selection.isMember w)
      (fresh : τ.index w = 0) :
    Unbounded selection graph roots (entered ++ [w])
      ((τ.leaveAt v (τ.position v + front.length + 1)).enter w v)
  /-- The row of the top is read to its end, and the top is closed. -/
  | closes {v : Nat} {below roots entered : List Nat} {τ : Snapshot}
      (before : Unbounded selection graph roots entered τ) (path : τ.path = v :: below)
      (settled : ∀ x ∈ (Adjacency.row graph v).drop (τ.position v), τ.Settled selection x) :
    Unbounded selection graph roots entered
      ((τ.leaveAt v (τ.position v + ((Adjacency.row graph v).drop (τ.position v)).length)).close
        selection v (Adjacency.row graph v))

/-! ## What 32 bits keep

Only positions lose anything, and nothing but reading on looks at them. -/

namespace Snapshot

theorem stored_leaveAt (τ : Snapshot) (point stop : Nat) :
    (τ.leaveAt point stop).stored = τ.stored.readTo point stop := by
  simp only [stored, leaveAt, readTo, mk.injEq, and_true, true_and]
  funext other
  rw [Function.update_apply, Function.update_apply]
  split <;> rfl

theorem stored_enter (τ : Snapshot) (point parent : Nat) :
    (τ.enter point parent).stored = τ.stored.enter point parent := by
  simp only [stored, enter, mk.injEq, and_true, true_and]
  funext other
  rw [Function.update_apply, Function.update_apply]
  split <;> rfl

theorem stored_retire (τ : Snapshot) (point low : Nat) :
    (τ.retire point low).stored = τ.stored.retire point low := by
  by_cases root : τ.parent point = point
  · have root' : τ.stored.parent point = point := root
    rw [retire, if_pos root, retire, if_pos root']
    rfl
  · have root' : ¬ τ.stored.parent point = point := root
    rw [retire, if_neg root, retire, if_neg root']
    rfl

theorem stored_close (τ : Snapshot) (selection : Selection) (point : Nat) (row : List Nat) :
    (τ.close selection point row).stored = τ.stored.close selection point row := by
  have least : τ.stored.lowest selection row (τ.stored.low point) =
      τ.lowest selection row (τ.low point) :=
    lowest_congr fun _ _ _ => ⟨rfl, rfl⟩
  by_cases root : τ.lowest selection row (τ.low point) = τ.index point
  · have root' : τ.lowest selection row (τ.low point) = τ.stored.index point := root
    rw [close, if_pos root, close, least, if_pos root', ← stored_retire]
    rfl
  · have root' : ¬ τ.lowest selection row (τ.low point) = τ.stored.index point := root
    rw [close, if_neg root, close, least, if_neg root', stored_retire]

/-! ## Where rows are left -/

/-- No position lies beyond its row, and what was read of a row on the path is settled. -/
structure Resumes (selection : Selection) (graph : γ) (τ : Snapshot) : Prop where
  position_le : ∀ v, τ.position v ≤ (Adjacency.row graph v).length
  settled : ∀ v ∈ τ.path, ∀ x ∈ (Adjacency.row graph v).take (τ.position v), τ.Settled selection x

namespace Resumes

theorem blank : Snapshot.blank.Resumes selection graph := by
  constructor <;> simp [Snapshot.blank]

variable (resumes : τ.Resumes selection graph)

include resumes

theorem enter (w parent : Nat) : (τ.enter w parent).Resumes selection graph where
  position_le u := by
    show update τ.position w 0 u ≤ _
    rw [Function.update_apply]
    split
    · exact Nat.zero_le _
    · exact resumes.position_le u
  settled u mem x read := by
    replace read : x ∈ (Adjacency.row graph u).take (update τ.position w 0 u) := read
    by_cases same : u = w
    · rw [same, Function.update_self, List.take_zero] at read
      cases read
    · rw [Function.update_of_ne same] at read
      exact (resumes.settled u ((List.mem_cons.1 mem).resolve_left same) x read).enter

theorem leaveAt (le : stop ≤ (Adjacency.row graph v).length)
    (settled : ∀ x ∈ (Adjacency.row graph v).take stop, τ.Settled selection x) :
    (τ.leaveAt v stop).Resumes selection graph where
  position_le u := by
    show update τ.position v stop u ≤ _
    rw [Function.update_apply]
    split
    · next same => exact same ▸ le
    · exact resumes.position_le u
  settled u mem x read := by
    replace read : x ∈ (Adjacency.row graph u).take (update τ.position v stop u) := read
    by_cases same : u = v
    · subst same
      rw [Function.update_self] at read
      exact settled x read
    · rw [Function.update_of_ne same] at read
      exact resumes.settled u mem x read

theorem close (selection' : Selection) (row : List Nat) :
    (τ.close selection' v row).Resumes selection graph where
  position_le u := by
    rw [close_position]
    exact resumes.position_le u
  settled u mem x read := by
    rw [close_path] at mem
    rw [close_position] at read
    refine ⟨(resumes.settled u (List.mem_of_mem_tail mem) x read).1, ?_⟩
    rw [close_index]
    exact (resumes.settled u (List.mem_of_mem_tail mem) x read).2

end Resumes

/-! ## How points are numbered -/

/-- A point that was entered has its place among the points that were entered as its number, counted
from one, and reaches no greater number. It was entered from one that was entered. -/
structure Numbered (selection : Selection) (entered : List Nat) (τ : Snapshot) : Prop where
  distinct : entered.Nodup
  member : ∀ p ∈ entered, selection.isMember p
  visited_iff : ∀ p, τ.index p ≠ 0 ↔ p ∈ entered
  index_eq : ∀ i (h : i < entered.length), τ.index entered[i] = i + 1
  count : τ.lastIndex = entered.length
  low_le : ∀ p, τ.low p ≤ τ.index p
  parent : ∀ p, τ.parent p = 0 ∨ τ.parent p ∈ entered

namespace Numbered

theorem blank : Snapshot.blank.Numbered selection [] := by
  constructor <;> simp [Snapshot.blank]

variable (numbered : τ.Numbered selection entered)

include numbered

theorem leaveAt (v stop : Nat) : (τ.leaveAt v stop).Numbered selection entered := { numbered with }

theorem enter (member : selection.isMember w) (fresh : τ.index w = 0)
    (origin : parent = w ∨ parent ∈ entered) :
    (τ.enter w parent).Numbered selection (entered ++ [w]) := by
  have new : w ∉ entered := fun mem => (numbered.visited_iff w).2 mem fresh
  have old : ∀ p ∈ entered, p ≠ w := fun p mem same => new (same ▸ mem)
  constructor
  case distinct =>
    rw [← List.concat_eq_append]
    exact numbered.distinct.concat new
  case member =>
    intro p mem
    rcases List.mem_append.1 mem with before | last
    · exact numbered.member p before
    · exact List.mem_singleton.1 last ▸ member
  case visited_iff =>
    intro p
    rw [List.mem_append, List.mem_singleton]
    by_cases same : p = w
    · simp [same, enter_index_self]
    · rw [enter_index_of_ne same, numbered.visited_iff]
      exact (or_iff_left same).symm
  case index_eq =>
    intro i h
    rcases Nat.lt_or_ge i entered.length with before | after
    · rw [List.getElem_append_left before, enter_index_of_ne (old _ (List.getElem_mem before))]
      exact numbered.index_eq i before
    · have last : i = entered.length := by
        rw [List.length_append, List.length_singleton] at h
        omega
      subst last
      rw [List.getElem_concat_length rfl, enter_index_self, numbered.count]
  case count =>
    rw [List.length_append, List.length_singleton, ← numbered.count]
    rfl
  case low_le =>
    intro p
    by_cases same : p = w
    · rw [same, enter_low_self, enter_index_self]
    · rw [enter_low_of_ne same, enter_index_of_ne same]
      exact numbered.low_le p
  case parent =>
    intro p
    show update τ.parent w parent p = 0 ∨ update τ.parent w parent p ∈ entered ++ [w]
    rw [Function.update_apply, List.mem_append, List.mem_singleton]
    split
    · exact .inr origin.symm
    · exact (numbered.parent p).imp_right .inl

theorem close (selection' : Selection) (v : Nat) (row : List Nat) :
    (τ.close selection' v row).Numbered selection entered := by
  constructor
  case distinct => exact numbered.distinct
  case member => exact numbered.member
  case visited_iff =>
    rw [close_index]
    exact numbered.visited_iff
  case index_eq =>
    rw [close_index]
    exact numbered.index_eq
  case count =>
    rw [close_lastIndex]
    exact numbered.count
  case low_le =>
    intro p
    rw [close_low, close_index]
    by_cases same : p = v
    · rw [same, retire_low_self]
      exact lowest_le.trans (numbered.low_le v)
    · rw [retire_low τ v _ same]
      split
      · exact (Nat.min_le_left ..).trans (numbered.low_le p)
      · exact numbered.low_le p
  case parent =>
    rw [close_parent]
    exact numbered.parent

/-- No number is greater than the number of members. -/
theorem index_le (p : Nat) : τ.index p ≤ entered.length := by
  by_cases visited : τ.index p = 0
  · exact visited ▸ Nat.zero_le _
  · obtain ⟨i, h, rfl⟩ := List.getElem_of_mem ((numbered.visited_iff p).1 visited)
    rw [numbered.index_eq i h]
    exact h

theorem length_le : entered.length ≤ selection.memberCount := by
  rw [← selection.length_members]
  exact numbered.distinct.length_le_of_subset fun p mem =>
    Selection.mem_members_iff.2 (numbered.member p mem)

theorem index_injective {p q : Nat} (visited : τ.index p ≠ 0) (same : τ.index p = τ.index q) :
    p = q := by
  have visited' : τ.index q ≠ 0 := same ▸ visited
  obtain ⟨i, hi, rfl⟩ := List.getElem_of_mem ((numbered.visited_iff p).1 visited)
  obtain ⟨j, hj, rfl⟩ := List.getElem_of_mem ((numbered.visited_iff q).1 visited')
  rw [numbered.index_eq i hi, numbered.index_eq j hj] at same
  cases Nat.succ.inj same
  rfl

end Numbered

end Snapshot

/-! ## The search in storage and the search without bounds -/

/-- The storage of a stage says what a search with numbers that have no bound knows. -/
structure Stage.Mirrors (selection : Selection) (graph : γ) (stage : Stage) (entered : List Nat)
    (τ : Snapshot) : Prop where
  reached : Unbounded selection graph stage.roots entered τ
  shown : stage.search.snapshot = τ.stored
  resumes : τ.Resumes selection graph
  numbered : τ.Numbered selection entered

/-- **From one stage to the next** the storage says what the search without bounds knows. The row is
read on from where it was left, to the same entry. -/
theorem Stage.Change.mirrors (change : stage.Change selection graph stage')
    (sound : stage.search.Sound selection graph)
    (mirrors : stage.Mirrors selection graph entered τ) :
    ∃ entered' τ', stage'.Mirrors selection graph entered' τ' := by
  obtain ⟨reached, same, resumes, numbered⟩ := mirrors
  cases change with
  | skip path visited =>
    rw [same] at path visited
    exact ⟨entered, τ, .skip reached path visited, same, resumes, numbered⟩
  | @root root roots s s' path member fresh shown =>
    simp only [same] at path fresh shown
    refine ⟨_, _, .root reached path fresh, ?_, resumes.enter root root,
      numbered.enter member fresh (.inl rfl)⟩
    rw [shown, Snapshot.stored_enter]
  | turn turned =>
    cases turned with
    | @entered v w below front back path row settled member fresh shown =>
      have visited := sound.invariant.visited_of_path (Snapshot.top_mem path)
      simp only [same] at path settled fresh shown visited
      have other : v ≠ w := fun same => visited (same ▸ fresh)
      have le : τ.position v ≤ front.length :=
        Snapshot.read_le_of_unsettled row (resumes.settled v (Snapshot.top_mem path))
          (Snapshot.not_settled_iff.2 (.inr ⟨member, fresh⟩))
      have rest : (Adjacency.row graph v).drop (τ.position v) =
          front.drop (τ.position v) ++ w :: back := by
        rw [row, List.drop_append_of_le_length le]
      have stop : τ.position v + (front.drop (τ.position v)).length + 1 = front.length + 1 := by
        rw [List.length_drop, Nat.add_sub_cancel' le]
      have next := Unbounded.enters reached path rest
        (fun x mem => settled x (List.mem_of_mem_drop mem)) member fresh
      rw [stop] at next
      refine ⟨_, _, next, ?_, ?_, ?_⟩
      · rw [shown, Snapshot.stored_enter, Snapshot.stored_leaveAt]
      · have swap : (τ.leaveAt v (front.length + 1)).enter w v =
            (τ.enter w v).leaveAt v (front.length + 1) := by
          simp only [Snapshot.enter, Snapshot.leaveAt, Snapshot.mk.injEq, and_true, true_and]
          exact Function.update_comm other _ _ _
        rw [swap]
        exact (resumes.enter w v).leaveAt (by simp [row])
          (Snapshot.settled_enter row settled member)
      · exact (numbered.leaveAt v _).enter member fresh
          (.inr ((numbered.visited_iff v).1 visited))
    | @closed v below path settled shown =>
      simp only [same] at path settled shown
      have stop : τ.position v + ((Adjacency.row graph v).drop (τ.position v)).length =
          (Adjacency.row graph v).length := by
        rw [List.length_drop, Nat.add_sub_cancel' (resumes.position_le v)]
      have next := Unbounded.closes reached path fun x mem => settled x (List.mem_of_mem_drop mem)
      rw [stop] at next
      refine ⟨_, _, next, ?_, ?_, (numbered.leaveAt v _).close selection v _⟩
      · rw [shown, Snapshot.stored_close, Snapshot.stored_leaveAt]
      · refine (resumes.leaveAt (Nat.le_refl _) fun x mem => ?_).close selection _
        exact settled x (List.mem_of_mem_take mem)

theorem Course.mirrors (course : Course selection graph buffers stage) :
    ∃ entered τ, stage.Mirrors selection graph entered τ := by
  have small := course.small
  induction course with
  | start ready =>
    rw [Buffers.reset_of_lt small] at ready
    cases ready
    exact ⟨[], .blank, .start, Snapshot.snapshot_blank _, .blank, .blank⟩
  | next before next ih =>
    obtain ⟨entered, τ, mirrors⟩ := ih
    have sound := before.sound
    exact (next.change sound).mirrors sound.search mirrors

/-- **No fault**: no check of a search fails, whatever stage it is at. -/
theorem Course.no_fault (course : Course selection graph buffers stage) (cause : Fault)
    (s : Search) : stage.rest selection graph ≠ .error (.fault cause) s := by
  rw [course.rest_eq]
  have ends := search_ends graph course.small
  generalize searchRoots selection graph selection.members
    { toBuffers := Buffers.blank selection.pointCount } = result at ends
  cases ends with
  | done => nofun
  | strayed => nofun

/-- A stage whose storage has lost nothing: every number in it is the one that it stands for. The
visit numbers are the places of the points among those that were entered, no visit number and no low
number is greater than the number of members, and all points that are kept are points. -/
structure Stage.Lossless (selection : Selection) (graph : γ) (stage : Stage) (entered : List Nat)
    (τ : Snapshot) : Prop where
  reached : Unbounded selection graph stage.roots entered τ
  shown : stage.search.snapshot = τ.stored
  position_eq : ∀ v, (Adjacency.row graph v).length < UInt32.size →
    stage.search.snapshot.position v = τ.position v
  distinct : entered.Nodup
  discovered_iff : ∀ p, 1 ≤ stage.search.snapshot.index p ↔ p ∈ entered
  index_eq : ∀ i (h : i < entered.length), stage.search.snapshot.index entered[i] = i + 1
  index_injective : ∀ p q, 1 ≤ stage.search.snapshot.index p →
    stage.search.snapshot.index p = stage.search.snapshot.index q → p = q
  lastIndex_eq : stage.search.snapshot.lastIndex = entered.length
  lastIndex_le : stage.search.snapshot.lastIndex ≤ selection.memberCount
  room : stage.search.snapshot.lastIndex + 1 < UInt32.size
  index_le : ∀ p, stage.search.snapshot.index p ≤ selection.memberCount
  low_le : ∀ p, stage.search.snapshot.low p ≤ selection.memberCount
  parent_lt : ∀ p < selection.pointCount, stage.search.snapshot.parent p < selection.pointCount
  path_lt : ∀ p ∈ stage.search.snapshot.path, p < selection.pointCount
  trail_lt : ∀ p ∈ stage.search.snapshot.trail, p < selection.pointCount
  no_fault : ∀ cause s, stage.rest selection graph ≠ .error (.fault cause) s

/-- **No stage has lost anything**: the storage of every stage of a search says what a search with
numbers that have no bound knows. -/
theorem Course.lossless (course : Course selection graph buffers stage) :
    ∃ entered τ, stage.Lossless selection graph entered τ := by
  obtain ⟨entered, τ, reached, shown, resumes, numbered⟩ := course.mirrors
  have inv := course.sound.search.invariant
  have inside : ∀ {p}, stage.search.snapshot.index p ≠ 0 → p < selection.pointCount :=
    fun visited => Selection.lt_of_isMember (inv.member _ visited)
  have few := numbered.length_le
  have index : stage.search.snapshot.index = τ.index := by rw [shown]; rfl
  refine ⟨entered, τ, ?_⟩
  constructor
  case reached => exact reached
  case shown => exact shown
  case position_eq =>
    intro v short
    rw [shown]
    exact Nat.mod_eq_of_lt (Nat.lt_of_le_of_lt (resumes.position_le v) short)
  case distinct => exact numbered.distinct
  case discovered_iff =>
    intro p
    rw [index, ← numbered.visited_iff, Nat.one_le_iff_ne_zero]
  case index_eq =>
    rw [index]
    exact numbered.index_eq
  case index_injective =>
    intro p q visited same
    rw [index] at visited same
    exact numbered.index_injective (Nat.one_le_iff_ne_zero.1 visited) same
  case lastIndex_eq =>
    rw [shown]
    exact numbered.count
  case lastIndex_le =>
    rw [shown]
    exact numbered.count.trans_le few
  case room =>
    have fits := course.small
    have points := selection.memberCount_le
    rw [pointLimit] at fits
    rw [shown]
    have count : τ.stored.lastIndex = entered.length := numbered.count
    omega
  case index_le =>
    intro p
    rw [index]
    exact (numbered.index_le p).trans few
  case low_le =>
    intro p
    rw [shown]
    exact (numbered.low_le p).trans ((numbered.index_le p).trans few)
  case parent_lt =>
    intro p lt
    rw [shown]
    rcases numbered.parent p with none | origin
    · exact Nat.lt_of_le_of_lt (none.trans_le (Nat.zero_le p)) lt
    · exact Selection.lt_of_isMember (numbered.member _ origin)
  case path_lt => exact fun p mem => inside (inv.visited_of_path mem)
  case trail_lt => exact fun p mem => inside (inv.visited_of_trail mem)
  case no_fault => exact course.no_fault

end Navigability.Component
