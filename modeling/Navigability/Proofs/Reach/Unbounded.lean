import Navigability.Proofs.Reach.Itinerary

/-!
# A traversal with numbers that have no bound

A traversal keeps points and levels in 32 bits. Here the same traversal is made with numbers that
have no bound, on a queue that is a list. The one in storage is at every place where this one is,
and its queue says the same, so nothing was lost: every point in the queue is one of the points, and
as the level of an entry is no greater than its position in the queue, and the queue holds members
only, each of them once, every level is less than the number of members.

## Main definitions

* `Tally`, `Place.tally`: what is known at a place, in numbers that have no bound
* `Unbounded`: the places of a traversal with numbers that have no bound
* `Tally.Modest`: no level is greater than its position in the queue
* `Place.Lossless`: a place whose storage has lost nothing

## Main results

* `Itinerary.unbounded`: the traversal in storage is where the one without bounds is
* `Itinerary.lossless`: no place of a traversal has lost anything
-/

namespace Navigability.Reach

open Attempt

variable {γ : Type} [Adjacency γ] {selection : Selection} {graph : γ} {start : Nat} {b c : Buffers}
  {place place' : Place}

/-- What is known at a place, in numbers that have no bound: how many entries were taken from the
queue, the greatest level of one of them, the queue, and in the row of a point the point, its level
and what is left of the row. -/
structure Tally where
  position : Nat
  deepest : Nat
  found : List (Nat × Nat)
  reading : Option (Nat × Nat × List Nat)

namespace Place

/-- The storage at a place. -/
def buffers : Place → Buffers
  | .head _ _ b => b
  | .row _ _ _ _ _ b => b

/-- What is known at a place. -/
def tally : Place → Tally
  | .head position deepest b => ⟨position, deepest.toNat, b.found, none⟩
  | .row position deepest point level rest b =>
    ⟨position, deepest.toNat, b.found, some (point, level.toNat, rest)⟩

end Place

/-- The places of a traversal with numbers that have no bound. -/
inductive Unbounded (selection : Selection) (graph : γ) (start : Nat) : Tally → Prop
  | start : Unbounded selection graph start ⟨0, 0, [(start, 0)], none⟩
  /-- The next entry of the queue is taken. -/
  | take {position deepest p d : Nat} {found : List (Nat × Nat)}
      (before : Unbounded selection graph start ⟨position, deepest, found, none⟩)
      (h : position < found.length) (shape : found[position] = (p, d)) :
    Unbounded selection graph start
      ⟨position + 1, max deepest d, found, some (p, d, Adjacency.row graph p)⟩
  /-- An entry of the row is read that is no member, or found. -/
  | pass {position deepest p d w : Nat} {rest : List Nat} {found : List (Nat × Nat)}
      (before : Unbounded selection graph start ⟨position, deepest, found, some (p, d, w :: rest)⟩)
      (inside : w < selection.pointCount) (known : selection.isMember w → w ∈ found.map Prod.fst) :
    Unbounded selection graph start ⟨position, deepest, found, some (p, d, rest)⟩
  /-- An entry of the row is read that is a member and not found, and it is found one level on. -/
  | find {position deepest p d w : Nat} {rest : List Nat} {found : List (Nat × Nat)}
      (before : Unbounded selection graph start ⟨position, deepest, found, some (p, d, w :: rest)⟩)
      (member : selection.isMember w) (unknown : w ∉ found.map Prod.fst) :
    Unbounded selection graph start
      ⟨position, deepest, found ++ [(w, d + 1)], some (p, d, rest)⟩
  /-- The row is read. -/
  | back {position deepest p d : Nat} {found : List (Nat × Nat)}
      (before : Unbounded selection graph start ⟨position, deepest, found, some (p, d, [])⟩) :
    Unbounded selection graph start ⟨position, deepest, found, none⟩

/-! ## Levels without a bound -/

/-- The queue holds members, each of them once, and no level is greater than its position in it. -/
structure Tally.Modest (selection : Selection) (tally : Tally) : Prop where
  distinct : (tally.found.map Prod.fst).Nodup
  member : ∀ x ∈ tally.found, selection.isMember x.1
  level_le : ∀ i (h : i < tally.found.length), tally.found[i].2 ≤ i
  attained : ∃ x ∈ tally.found, x.2 = tally.deepest
  reading : ∀ p d rest, tally.reading = some (p, d, rest) → (p, d) ∈ tally.found

namespace Tally.Modest

variable {tally : Tally} (modest : tally.Modest selection)

include modest

theorem level_lt_length {x : Nat × Nat} (mem : x ∈ tally.found) : x.2 < tally.found.length := by
  obtain ⟨i, h, rfl⟩ := List.getElem_of_mem mem
  exact Nat.lt_of_le_of_lt (modest.level_le i h) h

/-- **Every level** is less than the number of members. -/
theorem level_lt {x : Nat × Nat} (mem : x ∈ tally.found) : x.2 < selection.memberCount := by
  have members : tally.found.map Prod.fst ⊆ selection.members := by
    intro p mem
    obtain ⟨y, found, rfl⟩ := List.mem_map.1 mem
    exact Selection.mem_members_iff.2 (modest.member y found)
  have few := modest.distinct.length_le_of_subset members
  rw [List.length_map, selection.length_members] at few
  exact Nat.lt_of_lt_of_le (modest.level_lt_length mem) few

end Tally.Modest

/-- **No level is greater than its position** in the queue of a traversal without bounds, as the
point from which another is found was found before it. -/
theorem Unbounded.modest {tally : Tally} (reached : Unbounded selection graph start tally)
    (member : selection.isMember start) : tally.Modest selection := by
  induction reached with
  | start =>
    constructor
    case distinct => simp
    case member => simpa using member
    case level_le =>
      intro i h
      obtain rfl : i = 0 := by simpa using h
      exact Nat.le_refl _
    case attained => exact ⟨(start, 0), by simp⟩
    case reading => nofun
  | @take position deepest p d found before h shape modest =>
    have mem : (p, d) ∈ found := shape ▸ List.getElem_mem h
    refine ⟨modest.distinct, modest.member, modest.level_le, ?_, ?_⟩
    · rcases Nat.le_total d deepest with le | le
      · obtain ⟨x, known, level⟩ := modest.attained
        exact ⟨x, known, level.trans (Nat.max_eq_left le).symm⟩
      · exact ⟨(p, d), mem, (Nat.max_eq_right le).symm⟩
    · intro q e rest same
      cases same
      exact mem
  | pass before inside known modest =>
    refine ⟨modest.distinct, modest.member, modest.level_le, modest.attained, ?_⟩
    intro q e rest same
    cases same
    exact modest.reading _ _ _ rfl
  | @find position deepest p d w rest found before member unknown modest =>
    constructor
    case distinct =>
      rw [List.map_append, List.map_singleton, ← List.concat_eq_append]
      exact modest.distinct.concat unknown
    case member =>
      intro x mem
      rcases List.mem_append.1 mem with old | new
      · exact modest.member x old
      · exact List.mem_singleton.1 new ▸ member
    case level_le =>
      intro i h
      rcases Nat.lt_or_ge i found.length with old | new
      · rw [List.getElem_append_left old]
        exact modest.level_le i old
      · have last : i = found.length := by
          rw [List.length_append, List.length_singleton] at h
          omega
        subst last
        rw [List.getElem_concat_length rfl]
        exact modest.level_lt_length (modest.reading _ _ _ rfl)
    case attained =>
      obtain ⟨x, known, level⟩ := modest.attained
      exact ⟨x, List.mem_append_left _ known, level⟩
    case reading =>
      intro q e rest same
      cases same
      exact List.mem_append_left _ (modest.reading _ _ _ rfl)
  | back before modest =>
    exact ⟨modest.distinct, modest.member, modest.level_le, modest.attained, nofun⟩

/-! ## The traversal in storage and the traversal without bounds -/

/-- Of a single entry, it is fresh or it is passed. -/
theorem Fresh.of_singleton {w : Nat} {found : List (Nat × Nat)} {fresh : List Nat}
    (new : Fresh selection [w] found fresh) :
    fresh = [w] ∧ selection.isMember w ∧ w ∉ found.map Prod.fst ∨
      fresh = [] ∧ (selection.isMember w → w ∈ found.map Prod.fst) := by
  have only : ∀ x ∈ fresh, x = w := fun x mem => List.mem_singleton.1 ((new.mem_iff x).1 mem).1
  by_cases mem : w ∈ fresh
  · refine .inl ⟨?_, ((new.mem_iff w).1 mem).2⟩
    refine List.perm_singleton.1
      ((List.perm_ext_iff_of_nodup new.distinct (List.nodup_singleton w)).2 fun x => ?_)
    exact ⟨fun h => List.mem_singleton.2 (only x h), fun h => List.mem_singleton.1 h ▸ mem⟩
  · refine .inr ⟨List.eq_nil_iff_forall_not_mem.2 fun x h => mem (only x h ▸ h), fun member => ?_⟩
    by_contra unknown
    exact mem ((new.mem_iff w).2 ⟨List.mem_singleton_self w, member, unknown⟩)

/-- **From one place to the next** the storage says what the traversal without bounds knows. -/
theorem Place.Next.unbounded (next : place.Next selection graph place')
    (sound : place.Sound selection graph start)
    (reached : Unbounded selection graph start place.tally) :
    Unbounded selection graph start place'.tally := by
  cases next with
  | @take position deepest b h =>
    have inside : position < b.found.length := h.trans_eq b.length_found.symm
    rw [tally, toNat_max]
    exact .take reached inside (Buffers.getElem_found h inside)
  | @read position deepest point level w rest b b' ran =>
    have here := inside_of_expand ran
    have room := sound.room
    cases sound with
    | row sound =>
      obtain ⟨_, fresh, ran', -, new, shown⟩ :=
        expand_sound point sound (List.forall_mem_singleton.2 here) room
      cases ran.symm.trans ran'
      rw [tally, shown]
      rcases new.of_singleton with ⟨rfl, member, unknown⟩ | ⟨rfl, known⟩
      · exact .find reached member unknown
      · rw [List.map_nil, List.append_nil]
        exact .pass reached here known
  | back => exact .back reached

/-- **At every place** the storage says what the traversal without bounds knows. -/
theorem Itinerary.unbounded (itinerary : Itinerary selection graph start b place)
    (ready : b.Ready selection.pointCount) (small : selection.pointCount < pointLimit)
    (member : selection.isMember start) : Unbounded selection graph start place.tally := by
  induction itinerary with
  | start began =>
    obtain ⟨c, began', -, found⟩ := begins ready small member
    cases began.symm.trans began'
    rw [Place.tally, found]
    exact .start
  | next before next ih => exact next.unbounded (before.sound ready small member) ih

/-! ## Stamps -/

/-- A traversal has one stamp. -/
theorem Itinerary.stamp_eq (itinerary : Itinerary selection graph start b place) :
    place.buffers.stamp.toNat =
      if b.stamp.toNat + 1 = UInt32.size then 1 else b.stamp.toNat + 1 := by
  induction itinerary with
  | start began =>
    obtain ⟨c, restarted, stamp⟩ := restart_stamp b
    rw [bind_of_ok restarted, bind_eq_ok] at began
    obtain ⟨fresh, d, visited, enqueued⟩ := began
    obtain rfl := modify_eq_ok.1 enqueued
    rw [← stamp]
    exact congrArg UInt32.toNat (visit_spec visited).2.1
  | next before next ih =>
    rw [← ih]
    cases next with
    | read ran => exact congrArg UInt32.toNat (expand_spec ran).1
    | take h => rfl
    | back => rfl

/-! ## Nothing is lost -/

/-- **No fault**: no check of a traversal fails, whatever place it is at. -/
theorem Itinerary.no_fault (itinerary : Itinerary selection graph start b place)
    (ready : b.Ready selection.pointCount) (small : selection.pointCount < pointLimit)
    (member : selection.isMember start) (cause : Fault) (c : Buffers) :
    place.rest selection graph ≠ .error (.fault cause) c := by
  rw [← itinerary.rest_eq]
  have ends := traverse_ends graph ready small member
  generalize traverse selection graph start b = result at ends
  cases ends with
  | done => nofun
  | strayed => nofun

/-- A place whose storage has lost nothing: every number in it is the one that it stands for. The
points in the queue are points, and their levels are less than the number of members; a mark with
the current stamp stands for a point in the queue, and the stamp is the next one. -/
structure Place.Lossless (selection : Selection) (graph : γ) (start : Nat) (b : Buffers)
    (place : Place) : Prop where
  reached : Unbounded selection graph start place.tally
  marked_iff : ∀ p, place.buffers.Visited p ↔ p ∈ place.tally.found.map Prod.fst
  point_lt : ∀ x ∈ place.tally.found, x.1 < selection.pointCount
  level_lt : ∀ x ∈ place.tally.found, x.2 < selection.memberCount
  deepest_lt : place.tally.deepest < selection.memberCount
  room : ∀ x ∈ place.tally.found, x.2 + 1 < UInt32.size
  stamp_eq : place.buffers.stamp.toNat =
    if b.stamp.toNat + 1 = UInt32.size then 1 else b.stamp.toNat + 1
  no_fault : ∀ cause c, place.rest selection graph ≠ .error (.fault cause) c

/-- **No place has lost anything**: the storage of every place of a traversal from a member says
what a traversal with numbers that have no bound knows. -/
theorem Itinerary.lossless (itinerary : Itinerary selection graph start b place)
    (ready : b.Ready selection.pointCount) (small : selection.pointCount < pointLimit)
    (member : selection.isMember start) : place.Lossless selection graph start b := by
  have reached := itinerary.unbounded ready small member
  have modest := reached.modest member
  have few := selection.memberCount_le
  constructor
  case reached => exact reached
  case marked_iff =>
    have sound := itinerary.sound ready small member
    cases sound with
    | head sound => exact sound.visited_iff
    | row sound => exact sound.visited_iff
  case point_lt => exact fun x mem => Selection.lt_of_isMember (modest.member x mem)
  case level_lt => exact fun x mem => modest.level_lt mem
  case deepest_lt =>
    obtain ⟨x, mem, level⟩ := modest.attained
    exact level ▸ modest.level_lt mem
  case room =>
    intro x mem
    have low := modest.level_lt mem
    rw [pointLimit] at small
    omega
  case stamp_eq => exact itinerary.stamp_eq
  case no_fault => exact itinerary.no_fault ready small member

end Navigability.Reach
