import Mathlib.Data.Prod.Lex
import Navigability.Proofs.Reach.Traversal

/-!
# The itinerary of a traversal

A traversal goes from place to place. It takes an entry from the queue and reads the row of its
point, one entry after another, and when the row is read it stands in front of the next entry of the
queue. At every place the queue is a frontier, with the members at its end that were found in the
part of the row that is read. The levels fit into 32 bits, so the traversal comes to one of two
ends. Either its queue is used up, holds what can be reached from the start, and its depth is the
greatest distance; or the row of a nearest member that frays has stopped it, and the failure names
that member and the first number in its row that is no point.

## Main definitions

* `Place`: where a traversal stands
* `Place.Next`: how a traversal goes from one place to the next
* `Itinerary`: the places of a traversal
* `Place.Sound`: what is known of the queue at a place
* `Ends`: the two ends of a traversal

## Main results

* `Itinerary.rest_eq`: from every place the traversal comes to what it comes to from the start
* `Itinerary.sound`: what is known of the queue at every place
* `exists_itinerary_end`: the itinerary leads to the end of the traversal
* `traverse_ends`: a traversal comes to one of its ends
-/

namespace Navigability.Reach

open Attempt

variable {γ : Type} [Adjacency γ]

/-- Where a traversal stands: in front of an entry of the queue, or in the row of a point. It knows
how many entries it has taken from the queue and the greatest level of one of them; and in a row it
knows the point, its level, and what is left of the row. -/
inductive Place where
  | head (position : Nat) (deepest : UInt32) (buffers : Buffers)
  | row (position : Nat) (deepest : UInt32) (point : Nat) (level : UInt32) (rest : List Nat)
      (buffers : Buffers)

namespace Place

/-- How a traversal goes from one place to the next. -/
inductive Next (selection : Selection) (graph : γ) : Place → Place → Prop
  /-- The next entry of the queue is taken. -/
  | take {position : Nat} {deepest : UInt32} {b : Buffers} (h : position < b.queue.size) :
    Next selection graph (.head position deepest b)
      (.row (position + 1) (max deepest b.queue[position].level) b.queue[position].point.toNat
        b.queue[position].level (Adjacency.row graph b.queue[position].point.toNat) b)
  /-- An entry of the row is read. -/
  | read {position : Nat} {deepest : UInt32} {point : Nat} {level : UInt32} {w : Nat}
      {rest : List Nat} {b b' : Buffers} (ran : expand selection point level [w] b = .ok () b') :
    Next selection graph (.row position deepest point level (w :: rest) b)
      (.row position deepest point level rest b')
  /-- The row is read. -/
  | back {position : Nat} {deepest : UInt32} {point : Nat} {level : UInt32} {b : Buffers} :
    Next selection graph (.row position deepest point level [] b) (.head position deepest b)

/-- What a traversal has still to do. -/
def rest (selection : Selection) (graph : γ) : Place → EStateM.Result Failure Buffers Nat
  | .head position deepest b =>
    (sweep selection graph position deepest >>= fun depth => pure depth.toNat) b
  | .row position deepest point level remaining b =>
    (expand selection point level remaining >>= fun _ =>
      sweep selection graph position deepest >>= fun depth => pure depth.toNat) b

/-- The points that the traversal has not visited and the entries it has not taken, and what is left
of a row: one of them becomes less with each step. -/
def pending : Place → Nat ×ₗ Nat
  | .head position _ b => toLex (b.unvisited + (b.queue.size - position), 0)
  | .row position _ _ _ remaining b =>
    toLex (b.unvisited + (b.queue.size - position), remaining.length + 1)

variable {selection : Selection} {graph : γ} {place place' : Place}

/-- A place leaves the same to do as the one before it. -/
theorem Next.rest_eq (next : place.Next selection graph place') :
    place.rest selection graph = place'.rest selection graph := by
  cases next with
  | @take position deepest b h =>
    have unfolded : sweep selection graph position deepest b = _ := sweep_of_lt h
    rw [rest, bind_of_eq unfolded, bind_assoc]
    rfl
  | @read position deepest point level w remaining b b' ran =>
    have split : expand selection point level (w :: remaining) = _ :=
      expand_append point level [w] remaining
    rw [rest, split, bind_assoc, bind_of_ok ran]
    rfl
  | back => rfl

theorem Next.pending_lt (next : place.Next selection graph place') :
    place'.pending < place.pending := by
  cases next with
  | take h =>
    rw [pending, pending, Prod.Lex.toLex_lt_toLex]
    exact .inl (by simp only; omega)
  | read ran =>
    obtain ⟨-, grown, same⟩ := expand_spec ran
    rw [pending, pending, Prod.Lex.toLex_lt_toLex]
    simp only [List.length_cons]
    omega
  | back =>
    rw [pending, pending, Prod.Lex.toLex_lt_toLex]
    exact .inr ⟨rfl, Nat.succ_pos _⟩

end Place

/-- The places of a traversal from a point, in given storage. -/
inductive Itinerary (selection : Selection) (graph : γ) (start : Nat) (b : Buffers) : Place → Prop
  | start {c : Buffers}
      (began : (do restart; let _ ← visit start; enqueue start 0 : Attempt Buffers Unit) b =
        .ok () c) :
    Itinerary selection graph start b (.head 0 0 c)
  | next {place place' : Place} (before : Itinerary selection graph start b place)
      (next : place.Next selection graph place') : Itinerary selection graph start b place'

variable {selection : Selection} {graph : γ} {start : Nat} {b c : Buffers} {place : Place}

/-- **From every place** the traversal comes to what it comes to from the start. -/
theorem Itinerary.rest_eq (itinerary : Itinerary selection graph start b place) :
    traverse selection graph start b = place.rest selection graph := by
  induction itinerary with
  | start began =>
    rw [traverse_eq, bind_of_ok began]
    rfl
  | next before next ih => exact ih.trans next.rest_eq

/-! ## The queue at a place -/

theorem toNat_max (a b : UInt32) : (max a b).toNat = max a.toNat b.toNat := by
  have unfolded : max a b = if a ≤ b then b else a := rfl
  rw [unfolded]
  split
  · next le => exact (Nat.max_eq_right (UInt32.le_iff_toNat_le.1 le)).symm
  · next gt =>
    rw [UInt32.le_iff_toNat_le] at gt
    exact (Nat.max_eq_left (Nat.le_of_not_le gt)).symm

theorem Fresh.append {front back found : List _} {fresh fresh' : List Nat} {level : Nat}
    (first : Fresh selection front found fresh)
    (second : Fresh selection back (found ++ fresh.map fun w => (w, level)) fresh') :
    Fresh selection (front ++ back) found (fresh ++ fresh') := by
  have later : ∀ w, w ∈ fresh' ↔
      w ∈ back ∧ selection.isMember w ∧ w ∉ found.map Prod.fst ∧ w ∉ fresh := by
    intro w
    rw [second.mem_iff, List.map_append, List.mem_append, List.map_map]
    simp [not_or]
  constructor
  · refine List.nodup_append.2 ⟨first.distinct, second.distinct, ?_⟩
    rintro w old _ new rfl
    exact ((later w).1 new).2.2.2 old
  · intro w
    rw [List.mem_append, List.mem_append, later, first.mem_iff]
    tauto

/-- What is known of the queue at a place. In the row of a point that was taken, the members that
were found in the part that is read are at the end of what was the frontier before. -/
inductive Place.Sound (selection : Selection) (graph : γ) (start : Nat) : Place → Prop
  | head {position : Nat} {deepest : UInt32} {b : Buffers} (sound : b.Sound selection.pointCount)
      (frontier : Frontier selection graph start position b.found)
      (attained : ∃ x ∈ b.found, x.2 = deepest.toNat)
      (bound : ∀ x ∈ b.found.take position, x.2 ≤ deepest.toNat) :
    Sound selection graph start (.head position deepest b)
  | row {position : Nat} {deepest : UInt32} {point : Nat} {level : UInt32}
      {read remaining fresh : List Nat} {found : List (Nat × Nat)} {b : Buffers}
      (sound : b.Sound selection.pointCount)
      (frontier : Frontier selection graph start position found) (h : position < found.length)
      (shape : found[position] = (point, level.toNat))
      (split : Adjacency.row graph point = read ++ remaining)
      (inside : ∀ w ∈ read, w < selection.pointCount) (new : Fresh selection read found fresh)
      (shown : b.found = found ++ fresh.map fun w => (w, level.toNat + 1))
      (attained : ∃ x ∈ found, x.2 = deepest.toNat)
      (bound : ∀ x ∈ found.take (position + 1), x.2 ≤ deepest.toNat) :
    Sound selection graph start (.row (position + 1) deepest point level remaining b)

/-- An entry of a row that stops the traversal is the first one that is no point. -/
theorem expand_stray {point w : Nat} {level : UInt32} (outside : selection.pointCount ≤ w) :
    expand selection point level [w] b =
      .error (.neighborOutOfRange point w selection.pointCount) b := by
  have refused : check (selection.admits point w) b =
      .error (.neighborOutOfRange point w selection.pointCount) b := by
    rw [Selection.admits_of_le point outside]
    rfl
  rw [expand, bind_of_error refused]

theorem inside_of_expand {point w : Nat} {level : UInt32}
    (ran : expand selection point level [w] b = .ok () c) : w < selection.pointCount := by
  by_contra outside
  rw [expand_stray (Nat.not_lt.1 outside)] at ran
  cases ran

section Row

variable {position point : Nat} {deepest level : UInt32} {remaining : List Nat}

/-- The queue is longer than the level of the point that is expanded. -/
theorem Place.Sound.level_lt
    (sound : (Place.row position deepest point level remaining b).Sound selection graph start) :
    level.toNat < b.found.length := by
  cases sound with
  | row sound frontier h shape split inside new shown attained bound =>
    have low := frontier.level_le _ h
    rw [shape] at low
    rw [shown, List.length_append]
    exact Nat.lt_add_right _ (Nat.lt_of_le_of_lt low h)

/-- The next level fits into 32 bits. -/
theorem Place.Sound.room
    (sound : (Place.row position deepest point level remaining b).Sound selection graph start) :
    level.toNat + 1 < UInt32.size := by
  have low := sound.level_lt
  cases sound with
  | row sound =>
    have few := sound.length_le
    have small := sound.small
    rw [pointLimit] at small
    omega

end Row

/-- **From one place to the next** the queue stays a frontier. -/
theorem Place.Next.sound {place place' : Place} (next : place.Next selection graph place')
    (sound : place.Sound selection graph start) : place'.Sound selection graph start := by
  cases next with
  | @take position deepest b h =>
    cases sound with
    | head sound frontier attained bound =>
      have inside : position < b.found.length := h.trans_eq b.length_found.symm
      have shape := Buffers.getElem_found h inside
      have value := toNat_max deepest b.queue[position].level
      refine .row sound frontier inside shape (List.nil_append _).symm (List.forall_mem_nil _) .nil
        (by simp) ?_ ?_
      · rw [value]
        rcases Nat.le_total b.queue[position].level.toNat deepest.toNat with le | le
        · obtain ⟨x, mem, level⟩ := attained
          exact ⟨x, mem, by rw [level, Nat.max_eq_left le]⟩
        · exact ⟨_, shape ▸ List.getElem_mem inside, (Nat.max_eq_right le).symm⟩
      · intro x mem
        rw [List.take_succ_eq_append_getElem inside, shape, List.mem_append,
          List.mem_singleton] at mem
        rw [value]
        rcases mem with old | rfl
        · exact (bound x old).trans (Nat.le_max_left _ _)
        · exact Nat.le_max_right _ _
  | @read position deepest point level w remaining b b' ran =>
    have room := sound.room
    cases sound with
    | @row position deepest point level read _ fresh found _ sound frontier h shape split inside new
        shown attained bound =>
      have here := inside_of_expand ran
      obtain ⟨b'', fresh', ran', sound', new', shown'⟩ :=
        expand_sound point sound (List.forall_mem_singleton.2 here) room
      cases ran.symm.trans ran'
      rw [shown] at new' shown'
      have split' : Adjacency.row graph point = (read ++ [w]) ++ remaining := by simp [split]
      refine .row sound' frontier h shape split' ?_ (new.append new') (by simp [shown']) attained
        bound
      intro x mem
      rcases List.mem_append.1 mem with old | last
      · exact inside x old
      · exact List.mem_singleton.1 last ▸ here
  | @back position deepest point level b =>
    cases sound with
    | @row position deepest point level read _ fresh found _ sound frontier h shape split inside new
        shown attained bound =>
      rw [List.append_nil] at split
      have intact : ¬ selection.Frays graph point := by
        rintro ⟨-, w, mem, outside⟩
        exact Nat.not_lt.2 outside (inside w (split ▸ mem))
      have frontier' := frontier.expand h shape intact (split ▸ new)
      rw [← shown] at frontier'
      refine .head sound frontier' ?_ ?_
      · obtain ⟨x, mem, level⟩ := attained
        exact ⟨x, shown ▸ List.mem_append_left _ mem, level⟩
      · rw [shown, List.take_append_of_le_length h]
        exact bound

/-- **Every place of an itinerary** is sound. -/
theorem Itinerary.sound (itinerary : Itinerary selection graph start b place)
    (ready : b.Ready selection.pointCount) (small : selection.pointCount < pointLimit)
    (member : selection.isMember start) : place.Sound selection graph start := by
  induction itinerary with
  | start began =>
    obtain ⟨c, began', sound, found⟩ := begins ready small member
    cases began.symm.trans began'
    exact .head sound (found ▸ .init member) ⟨(start, 0), by simp [found], rfl⟩ (by simp)
  | next _ next ih => exact next.sound ih

/-! ## The end of an itinerary -/

/-- **The traversal goes on**, or its queue is used up, or the row that it reads strays. -/
theorem Place.Sound.next_or_end (sound : place.Sound selection graph start) :
    (∃ place', place.Next selection graph place') ∨
    (∃ deepest c, place = .head c.queue.size deepest c) ∨
    ∃ position deepest p level w remaining c,
      place = .row position deepest p level (w :: remaining) c ∧ selection.Strays graph p w := by
  rcases place with ⟨position, deepest, c⟩ | ⟨position, deepest, p, level, remaining, c⟩
  · cases sound with
    | head sound frontier =>
      rcases Nat.lt_or_ge position c.queue.size with h | done
      · exact .inl ⟨_, .take h⟩
      · have all : position = c.queue.size :=
          Nat.le_antisymm (frontier.position_le.trans_eq c.length_found) done
        exact .inr (.inl ⟨deepest, c, by rw [all]⟩)
  · cases remaining with
    | nil => exact .inl ⟨_, .back⟩
    | cons w remaining =>
      have room := sound.room
      cases sound with
      | @row _ _ _ _ read _ _ _ _ sound frontier h shape split inside =>
        rcases Nat.lt_or_ge w selection.pointCount with here | outside
        · obtain ⟨c', -, ran, -⟩ :=
            expand_sound p sound (List.forall_mem_singleton.2 here) room
          exact .inl ⟨_, .read ran⟩
        · have member := frontier.member_of_mem (List.getElem_mem h)
          rw [shape] at member
          exact .inr (.inr ⟨_, deepest, p, level, w, remaining, c, rfl,
            member, outside, read, remaining, split, inside⟩)

/-- **The itinerary leads to the end** of the traversal, where its queue is used up or a row
strays. -/
theorem exists_itinerary_end (graph : γ) (ready : b.Ready selection.pointCount)
    (small : selection.pointCount < pointLimit) (member : selection.isMember start) :
    (∃ deepest c, Itinerary selection graph start b (.head c.queue.size deepest c) ∧
      traverse selection graph start b = .ok deepest.toNat c) ∨
    ∃ position deepest p level w remaining c,
      Itinerary selection graph start b (.row position deepest p level (w :: remaining) c) ∧
      selection.Strays graph p w ∧ traverse selection graph start b =
        .error (.neighborOutOfRange p w selection.pointCount) c := by
  suffices goesOn : ∀ place, Itinerary selection graph start b place →
      ∃ place', Itinerary selection graph start b place' ∧
        ¬ ∃ later, place'.Next selection graph later by
    obtain ⟨c, began, -⟩ := begins ready small member
    obtain ⟨place, itinerary, last⟩ := goesOn _ (.start began)
    have comes := itinerary.rest_eq
    rcases (itinerary.sound ready small member).next_or_end with
      goes | ⟨deepest, c, rfl⟩ | ⟨position, deepest, p, level, w, remaining, c, rfl, strays⟩
    · exact absurd goes last
    · refine .inl ⟨deepest, c, itinerary, ?_⟩
      have swept : sweep selection graph c.queue.size deepest c = .ok deepest c :=
        sweep_of_le (Nat.le_refl _)
      rw [comes, Place.rest, bind_of_ok swept]
      rfl
    · refine .inr ⟨position, deepest, p, level, w, remaining, c, itinerary, strays, ?_⟩
      have split : expand selection p level (w :: remaining) = _ :=
        expand_append p level [w] remaining
      rw [comes, Place.rest, split, bind_assoc, bind_of_error (expand_stray strays.outside)]
  intro place
  induction pending : place.pending using WellFoundedLT.induction generalizing place with
  | ind bound ih =>
    intro itinerary
    by_cases goes : ∃ later, place.Next selection graph later
    · obtain ⟨later, next⟩ := goes
      exact ih _ (pending ▸ next.pending_lt) later rfl (itinerary.next next)
    · exact ⟨place, itinerary, goes⟩

/-- The two ends of a traversal: everything that was found is expanded, or the row of a nearest
member that frays has stopped it. -/
inductive Ends (selection : Selection) (graph : γ) (start : Nat) :
    EStateM.Result Failure Buffers Nat → Prop
  | done {depth : Nat} {b : Buffers} (sound : b.Sound selection.pointCount)
      (frontier : Frontier selection graph start b.found.length b.found)
      (attained : ∃ x ∈ b.found, x.2 = depth) (bound : ∀ x ∈ b.found, x.2 ≤ depth) :
    Ends selection graph start (.ok depth b)
  | strayed {p w : Nat} {b : Buffers} (sound : b.Sound selection.pointCount)
      (strays : selection.Strays graph p w)
      (nearest : selection.Nearest graph start (selection.Frays graph) p) :
    Ends selection graph start (.error (.neighborOutOfRange p w selection.pointCount) b)

/-- The row that has stopped a traversal is that of a nearest member that frays. -/
theorem Place.Sound.nearest {position p w : Nat} {deepest level : UInt32} {remaining : List Nat}
    (sound : (Place.row position deepest p level remaining c).Sound selection graph start)
    (strays : selection.Strays graph p w) :
    c.Sound selection.pointCount ∧ selection.Nearest graph start (selection.Frays graph) p := by
  cases sound with
  | row sound frontier h shape => exact ⟨sound, frontier.nearest h shape strays.frays⟩

/-- **A traversal** from a member, in storage that is ready, comes to one of the ends. -/
theorem traverse_ends (graph : γ) (ready : b.Ready selection.pointCount)
    (small : selection.pointCount < pointLimit) (member : selection.isMember start) :
    Ends selection graph start (traverse selection graph start b) := by
  rcases exists_itinerary_end graph ready small member with
    ⟨deepest, c, itinerary, ran⟩ | ⟨position, deepest, p, level, w, remaining, c, itinerary,
      strays, ran⟩
  · have place := itinerary.sound ready small member
    rw [ran]
    cases place with
    | head sound frontier attained bound =>
      rw [← c.length_found] at frontier bound
      rw [List.take_length] at bound
      exact .done sound frontier attained bound
  · obtain ⟨sound, nearest⟩ := (itinerary.sound ready small member).nearest strays
    rw [ran]
    exact .strayed sound strays nearest

end Navigability.Reach
