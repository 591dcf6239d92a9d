import Navigability.Entry.Heap
import Navigability.Memory

/-!
# Entry points

A traversal enters the graph at members of high inner degree. The members are offered one after
another to a shortlist that keeps the best of them so far in a heap with the worst on top, so no
more than the wanted number are held at any time. Members of equal degree are ranked by their
number, the lower or the higher first. The room for a shortlist is reserved before the first member
is offered, and goes by the number that is wanted and not by the number of members.

## Main definitions

* `Candidate`: a point and its degree
* `TieRule`: which of two points of equal degree ranks first
* `Shortlist.offer`: keep a candidate if it is among the best
* `best`: the best of a list of points, the best first
* `HasRoom`: whether the room for a shortlist can be reserved
* `shortlist`: reserve the room and take the best of a list of points

## Main results

* `shortlist_of_hasRoom`, `shortlist_of_not_hasRoom`: the two outcomes of that
-/

namespace Navigability.Entry

/-- A point that a traversal may enter at, and its inner degree. -/
structure Candidate where
  point : Nat
  degree : Nat
  deriving DecidableEq

/-- Which of two points of equal degree ranks first. -/
inductive TieRule where
  | lowestFirst
  | highestFirst
  deriving DecidableEq

/-- Whether one candidate ranks strictly before another. -/
def TieRule.ranksBefore (rule : TieRule) (a b : Candidate) : Bool :=
  if a.degree = b.degree then
    match rule with
    | lowestFirst => a.point < b.point
    | highestFirst => b.point < a.point
  else b.degree < a.degree

/-- The order of the heap, in which the lesser candidate is the one that ranks last. -/
def TieRule.ranksLast (rule : TieRule) (a b : Candidate) : Bool := !rule.ranksBefore a b

/-- The best candidates so far, with the worst of them on top, and their number. -/
structure Shortlist where
  heap : Heap Candidate := .empty
  size : Nat := 0

namespace Shortlist

/-- Offer a candidate to a shortlist of at most `limit` candidates. -/
def offer (rule : TieRule) (limit : Nat) (list : Shortlist) (candidate : Candidate) : Shortlist :=
  if list.size < limit then
    { heap := list.heap.insert rule.ranksLast candidate, size := list.size + 1 }
  else match list.heap with
    | .empty => list
    | .node _ worst left right =>
      if rule.ranksBefore candidate worst then
        { heap := (left.merge rule.ranksLast right).insert rule.ranksLast candidate
          size := list.size }
      else list

/-- Take `n` candidates out of a heap, the worst first, and put them in front of a list. -/
def unload (rule : TieRule) : Nat → Heap Candidate → List Candidate → List Candidate
  | 0, _, ranked => ranked
  | _, .empty, ranked => ranked
  | n + 1, .node _ worst left right, ranked =>
    unload rule n (left.merge rule.ranksLast right) (worst :: ranked)

/-- The candidates of a shortlist, the best first. -/
def ranked (rule : TieRule) (list : Shortlist) : List Candidate :=
  unload rule list.size list.heap []

end Shortlist

/-- The candidate of a point, if it has a degree. -/
def candidate? (degrees : Array UInt32) (point : Nat) : Option Candidate :=
  degrees[point]?.map fun degree => { point, degree := degree.toNat }

/-- The `limit` best candidates among the given points, the best first. A point given several times
is a candidate each time, and a point without a degree is none. -/
def best (degrees : Array UInt32) (rule : TieRule) (limit : Nat) (points : List Nat) :
    List Candidate :=
  ((points.filterMap (candidate? degrees)).foldl (Shortlist.offer rule limit) {}).ranked rule

/-! ## The room for a shortlist -/

/-- The bytes of a slot of a shortlist, which holds a degree, a key and a point. -/
def slotSize : Nat := 24

/-- The bytes of a shortlist of at most `limit` candidates: a slot for each of them, and one for the
candidate that is offered. -/
def reservation (limit : Nat) : Nat := (limit + 1) * slotSize

section Memory

variable [Memory]

/-- Whether the room for a shortlist of at most `limit` candidates can be reserved. -/
def HasRoom (limit : Nat) : Prop := reservation limit ≤ Memory.largest

instance (limit : Nat) : Decidable (HasRoom limit) := inferInstanceAs (Decidable (_ ≤ _))

/-- Reserve the room for a shortlist, and take the best candidates among the given points. Nothing
is reserved where no candidates are wanted. -/
def shortlist (degrees : Array UInt32) (rule : TieRule) (limit : Nat) (points : List Nat) :
    Except Failure (List Candidate) :=
  if limit = 0 then .ok []
  else do
    reserve (reservation limit)
    return best degrees rule limit points

variable {limit : Nat}

/-- No machine has room for a shortlist whose size has more than 63 bits. -/
theorem not_hasRoom (beyond : UInt64.size / 2 ≤ reservation limit) : ¬ HasRoom limit := fun room =>
  Nat.not_lt.2 beyond (Nat.lt_of_le_of_lt room Memory.largest_lt)

/-- Where there is room for a shortlist, there is room for a shorter one. -/
theorem HasRoom.mono {limit' : Nat} (room : HasRoom limit') (le : limit ≤ limit') :
    HasRoom limit :=
  Nat.le_trans (Nat.mul_le_mul_right slotSize (Nat.succ_le_succ le)) room

theorem shortlist_of_hasRoom (degrees : Array UInt32) (rule : TieRule) (wanted : limit ≠ 0)
    (room : HasRoom limit) (points : List Nat) :
    shortlist degrees rule limit points = .ok (best degrees rule limit points) := by
  have given : reserve (reservation limit) = .ok () := if_pos room
  rw [shortlist, if_neg wanted, given]
  rfl

theorem shortlist_of_not_hasRoom (degrees : Array UInt32) (rule : TieRule) (wanted : limit ≠ 0)
    (full : ¬ HasRoom limit) (points : List Nat) :
    shortlist degrees rule limit points = .error (.fault (.outOfMemory (reservation limit))) := by
  have refused : reserve (reservation limit) =
      .error (.fault (.outOfMemory (reservation limit))) := if_neg full
  rw [shortlist, if_neg wanted, refused]
  rfl

end Memory

end Navigability.Entry
