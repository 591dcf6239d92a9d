import Navigability.Proofs.Reach.Coverage
import Navigability.Proofs.Reach.Itinerary

/-!
# The queue in front of every entry

In front of every entry of the queue the points in it are exactly those that are marked, each of
them once, and their levels ascend and are distances. From the entry that was taken last on the
levels differ by one at most. When the queue is used up, it holds what can be reached, and the level
of its last entry is the greatest distance.

## Main definitions

* `Queued`, `Explored`: what the queue holds in front of an entry, and when it is used up

## Main results

* `queue_ascends`: what the queue holds in front of every entry, and at the end
-/

namespace Navigability.Reach

variable {γ : Type} [Adjacency γ] {selection : Selection} {graph : γ} {start : Nat} {b c : Buffers}

/-- What the queue holds in front of the entry at a position. -/
structure Queued (selection : Selection) (graph : γ) (start position : Nat) (c : Buffers) :
    Prop where
  distinct : c.visited.Nodup
  marked_iff : ∀ p, c.Visited p ↔ p ∈ c.visited
  ascending : c.found.Pairwise fun x y => x.2 ≤ y.2
  near : ∀ x ∈ c.found.drop (position - 1), ∀ y ∈ c.found.drop (position - 1), y.2 ≤ x.2 + 1
  member : ∀ p ∈ c.visited, selection.isMember p
  distance : ∀ p d, (p, d) ∈ c.found → selection.Distance graph start p d

/-- What the queue holds when a traversal has returned a depth. -/
structure Explored (selection : Selection) (graph : γ) (start depth : Nat) (c : Buffers) :
    Prop where
  mem_iff : ∀ v, v ∈ c.visited ↔ selection.Reaches graph start v
  last : ∃ p, c.found.getLast? = some (p, depth)
  greatest : IsGreatest {d | ∃ v, selection.Distance graph start v d} depth
  depth_lt : depth < c.queue.size

theorem Place.Sound.queued {position : Nat} {deepest : UInt32}
    (sound : (Place.head position deepest c).Sound selection graph start) :
    Queued selection graph start position c := by
  cases sound with
  | head sound frontier =>
    constructor
    case distinct => rw [Buffers.visited_eq]; exact frontier.distinct
    case marked_iff => intro p; rw [Buffers.visited_eq]; exact sound.visited_iff p
    case ascending => exact frontier.ascending
    case near => exact fun x later y later' => frontier.near x later y (List.mem_of_mem_drop later')
    case member =>
      intro p mem
      rw [Buffers.visited_eq] at mem
      obtain ⟨x, known, rfl⟩ := List.mem_map.1 mem
      exact frontier.member_of_mem known
    case distance => exact fun p d => frontier.distance

/-- No level in the queue is below those before it, so the last one is the greatest. -/
theorem Place.Sound.explored {deepest : UInt32}
    (sound : (Place.head c.queue.size deepest c).Sound selection graph start) :
    Explored selection graph start deepest.toNat c := by
  cases sound with
  | head sound frontier attained bound =>
    have all : c.found.length ≤ c.queue.size := c.length_found.le
    rw [List.take_of_length_le all] at bound
    obtain ⟨x, mem, level⟩ := attained
    have some : c.found ≠ [] := List.ne_nil_of_mem mem
    have last : (c.found.getLast some).2 = deepest.toNat := by
      refine Nat.le_antisymm (bound _ (List.getLast_mem some)) ?_
      have split := List.dropLast_append_getLast some
      have ascending := frontier.ascending
      rw [← split, List.pairwise_append] at ascending
      rw [← split, List.mem_append, List.mem_singleton] at mem
      rcases mem with before | rfl
      · exact level ▸ ascending.2.2 x before _ (List.mem_singleton_self _)
      · exact level.ge
    have reaches := fun v => frontier.mem_iff_reaches all (v := v)
    constructor
    case mem_iff => intro v; rw [Buffers.visited_eq]; exact reaches v
    case last =>
      exact ⟨(c.found.getLast some).1, by rw [List.getLast?_eq_some_getLast some, ← last]⟩
    case greatest =>
      constructor
      · exact ⟨x.1, level ▸ frontier.distance mem⟩
      · rintro d ⟨v, distance⟩
        obtain ⟨y, known, rfl⟩ := List.mem_map.1 ((reaches v).2 distance.reaches)
        rw [distance.unique (frontier.distance known)]
        exact bound y known
    case depth_lt =>
      have pos := List.length_pos_iff.2 some
      have low := frontier.level_le (c.found.length - 1) (by omega)
      rw [← List.getLast_eq_getElem some, last] at low
      rw [← c.length_found]
      omega

/-- **The queue of a traversal** from a member, in storage that is ready whatever its marks are. The
itinerary leads to the end, where the queue is used up or the row of a member strays. In front of
every entry the queue holds the points that are marked, each of them once, at their distances from
the start; the levels ascend, and from the entry that was taken last on they differ by one at most.
A traversal that returns has found what can be reached, and returns the level of the last entry,
which is the greatest distance and less than the number of entries. -/
theorem queue_ascends (graph : γ) (ready : b.Ready selection.pointCount)
    (small : selection.pointCount < pointLimit) (member : selection.isMember start) :
    ((∃ deepest c, Itinerary selection graph start b (.head c.queue.size deepest c) ∧
        traverse selection graph start b = .ok deepest.toNat c) ∨
      ∃ position deepest p level w remaining c,
        Itinerary selection graph start b (.row position deepest p level (w :: remaining) c) ∧
        selection.Strays graph p w ∧ traverse selection graph start b =
          .error (.neighborOutOfRange p w selection.pointCount) c) ∧
    (∀ position deepest c, Itinerary selection graph start b (.head position deepest c) →
      Queued selection graph start position c) ∧
    ∀ depth c, traverse selection graph start b = .ok depth c →
      Explored selection graph start depth c := by
  have ends := exists_itinerary_end graph ready small member
  refine ⟨ends, fun position deepest c itinerary =>
    (itinerary.sound ready small member).queued, ?_⟩
  intro depth c ran
  rcases ends with ⟨deepest, d, itinerary, ran'⟩ | ⟨_, _, p, _, w, _, d, -, -, failed⟩
  · cases ran.symm.trans ran'
    exact (itinerary.sound ready small member).explored
  · cases ran.symm.trans failed

/-- Storage in which earlier traversals have left their marks and a queue. -/
def worn : Buffers where
  marks := #[⟨7, true⟩, ⟨3, false⟩, ⟨0, false⟩, ⟨7, true⟩, ⟨1, false⟩]
  stamp := 7
  queue := #[⟨3, 0⟩, ⟨0, 1⟩]

theorem queue_worn :
    worn.Ready onFork.pointCount ∧ onFork.pointCount < pointLimit ∧ onFork.isMember 0 ∧
    ∃ c, Itinerary onFork fork 0 worn (.head 3 2 c) ∧ c.found = [(0, 0), (1, 1), (2, 2)] ∧
      Queued onFork fork 0 3 c ∧ Explored onFork fork 0 2 c := by
  have ready : worn.Ready onFork.pointCount := ⟨rfl, by decide⟩
  have small : onFork.pointCount < pointLimit := by decide
  have member : onFork.isMember 0 := rfl
  obtain ⟨ends, queued, explored⟩ := queue_ascends fork ready small member
  have found : (match traverse onFork fork 0 worn with
      | .ok depth c => some (depth, c.found)
      | .error _ _ => none) = some (2, [(0, 0), (1, 1), (2, 2)]) := by
    decide +kernel
  rcases ends with ⟨deepest, c, itinerary, ran⟩ | ⟨_, _, _, _, _, _, c, -, -, ran⟩
  · rw [ran] at found
    simp only [Option.some.injEq, Prod.mk.injEq] at found
    obtain ⟨depth, found⟩ := found
    have last := explored 2 c (depth ▸ ran)
    obtain rfl : deepest = 2 := UInt32.toNat_inj.1 depth
    have size : c.queue.size = 3 := by rw [← c.length_found, found]; rfl
    rw [size] at itinerary
    exact ⟨ready, small, member, c, itinerary, found, queued 3 2 c itinerary, last⟩
  · rw [ran] at found
    cases found

end Navigability.Reach
