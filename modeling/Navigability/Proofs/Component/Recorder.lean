import Navigability.Component.Turn
import Navigability.Proofs.Attempt

/-!
# A turn that writes down what it reads

A turn leaves nothing behind that tells which entries of a row it has looked at. Here the same turn
writes down each entry just before it looks at it. What is written down has no influence: from every
search, and whatever was written down before, the recorded turn ends as the turn does and leaves the
same search. So its record is one of the turn.

## Main definitions

* `Recorder`: a search, with the entries that were read
* `readRow`: reading a row, each entry written down before it is looked at
* `recordedTurn`: a turn that writes down what it reads
* `Search.slots`: what the turn to come writes down

## Main results

* `readRow_parallel`: reading a row with a record is reading it
* `recordedTurn_parallel`: a recorded turn is a turn
* `slots_eq`: what a turn writes down is what it reads of the row of the top
-/

namespace Navigability.Component

open Attempt

variable {γ : Type} [Adjacency γ] {selection : Selection} {graph : γ} {α : Type}

/-- A search, with the entries of rows that were read, each as the point and the position in its
row. -/
structure Recorder extends Search where
  read : List (Nat × Nat) := []

/-- A recorder with one more entry. -/
def Recorder.add (r : Recorder) (point position : Nat) : Recorder :=
  { r with read := r.read ++ [(point, position)] }

/-- Whether a recorder is that of a search. -/
def Recorder.Records (r : Recorder) (s : Search) : Prop := r.toSearch = s

/-- An attempt on a search, as one on its recorder. -/
def onSearch (attempt : Attempt Search α) : Attempt Recorder α := fun r =>
  match attempt r.toSearch with
  | .ok a s => .ok a { r with toSearch := s }
  | .error failure s => .error failure { r with toSearch := s }

/-- Write down that an entry of the row of a point is read. -/
def note (point position : Nat) : Attempt Recorder Unit :=
  modify fun r => r.add point position

/-- Read the rest of a row up to the first member that is not visited, and write down each entry
before it is looked at. -/
def readRow (selection : Selection) (point : Nat) :
    List Nat → Nat → Attempt Recorder (Option Nat × Nat)
  | [], position => return (none, position)
  | neighbor :: row, position => do
    note point position
    if ← check (selection.admits point neighbor) then
      if (← check (fetch (← get).points neighbor)).index = 0 then
        return (some neighbor, position + 1)
    readRow selection point row (position + 1)

section Row

variable {r : Recorder} {point neighbor position : Nat} {row : List Nat}

theorem readRow_of_not_admits {failure : Failure}
    (admits : selection.admits point neighbor = .error failure) :
    readRow selection point (neighbor :: row) position r =
      .error failure (r.add point position) := by
  have noted : note point position r = .ok () (r.add point position) := rfl
  rw [readRow, bind_of_ok noted, admits]
  rfl

theorem readRow_of_passed (admits : selection.admits point neighbor = .ok false) :
    readRow selection point (neighbor :: row) position r =
      readRow selection point row (position + 1) (r.add point position) := by
  have noted : note point position r = .ok () (r.add point position) := rfl
  rw [readRow, bind_of_ok noted, admits]
  rfl

theorem readRow_of_admitted (admits : selection.admits point neighbor = .ok true) :
    readRow selection point (neighbor :: row) position r =
      match fetch r.points neighbor with
      | .error failure => .error failure (r.add point position)
      | .ok state =>
        if state.index = 0 then .ok (some neighbor, position + 1) (r.add point position)
        else readRow selection point row (position + 1) (r.add point position) := by
  have noted : note point position r = .ok () (r.add point position) := rfl
  rw [readRow, bind_of_ok noted, admits]
  show (check (fetch r.points neighbor) >>= fun state => _) _ = _
  cases fetch r.points neighbor with
  | error failure => rfl
  | ok state =>
    have found : (check (.ok state) : Attempt Recorder PointState) (r.add point position) =
        .ok state (r.add point position) := rfl
    rw [bind_of_ok found]
    by_cases fresh : state.index = 0
    · rw [if_pos fresh]
      exact (if_pos fresh).symm
    · rw [if_neg fresh]
      exact (if_neg fresh).symm

end Row

/-- One turn at the top of the path, with a record of the entries that are read. -/
def recordedTurn (selection : Selection) (graph : γ) : Attempt Recorder Turn := do
  match (← get).path with
  | [] => return .finished
  | top :: _ =>
    let point := top.toNat
    let row := Adjacency.row graph point
    let state ← onSearch (stateAt point)
    let start := state.position.toNat
    let (next, stop) ← readRow selection point (row.drop start) start
    onSearch (setState point { state with position := UInt32.ofNat stop })
    match next with
    | some neighbor =>
      onSearch (enter neighbor point)
      return .entered neighbor
    | none =>
      onSearch (close selection point row)
      return .closed point

/-! ## A recorded turn is a turn -/

theorem onSearch_parallel (attempt : Attempt Search α) :
    Parallel Recorder.Records Recorder.Records (onSearch attempt) attempt := by
  rintro r _ rfl
  rw [onSearch]
  cases attempt r.toSearch with
  | ok a s => exact .ok rfl
  | error failure s => exact .error rfl

/-- **Reading a row** with a record is reading it. -/
theorem readRow_parallel (selection : Selection) (point : Nat) (row : List Nat) (position : Nat) :
    Parallel Recorder.Records Recorder.Records (readRow selection point row position)
      (fun s => check (findUnvisited selection s.points point row position) s) := by
  induction row generalizing position with
  | nil =>
    rintro r _ rfl
    exact .ok rfl
  | cons neighbor row ih =>
    rintro r _ rfl
    show Matches _ _ (check (findUnvisited selection r.points point (neighbor :: row) position) _)
    rw [findUnvisited]
    cases admits : selection.admits point neighbor with
    | error failure =>
      rw [readRow_of_not_admits admits]
      exact .error rfl
    | ok admitted =>
      cases admitted with
      | false =>
        rw [readRow_of_passed admits]
        exact ih _ _ _ rfl
      | true =>
        rw [readRow_of_admitted admits]
        simp only [bind, Except.bind, if_true]
        cases fetch r.points neighbor with
        | error failure => exact .error rfl
        | ok state =>
          by_cases fresh : state.index = 0
          · simp only [fresh, if_true]
            exact .ok rfl
          · simp only [fresh, if_false]
            exact ih _ _ _ rfl

/-- **A recorded turn** is a turn. -/
theorem recordedTurn_parallel (selection : Selection) (graph : γ) :
    Parallel Recorder.Records Recorder.Records (recordedTurn selection graph)
      (turn selection graph) := by
  rintro r _ rfl
  have got : (get : Attempt Recorder Recorder) r = .ok r r := rfl
  have got' : (get : Attempt Search Search) r.toSearch = .ok r.toSearch r.toSearch := rfl
  rw [recordedTurn, turn, bind_of_ok got, bind_of_ok got']
  cases r.path with
  | nil => exact .ok rfl
  | cons top rest =>
    refine (onSearch_parallel (stateAt top.toNat)).bind (fun state => ?_) r _ rfl
    refine (readRow_parallel selection top.toNat _ _).bind fun found => ?_
    obtain ⟨next, stop⟩ := found
    refine (onSearch_parallel _).bind fun _ => ?_
    cases next with
    | none => exact (onSearch_parallel _).bind fun _ => .pure _
    | some neighbor => exact (onSearch_parallel _).bind fun _ => .pure _

/-! ## The record of a turn -/

/-- The entries that the turn to come reads. -/
def Search.slots (selection : Selection) (graph : γ) (s : Search) : List (Nat × Nat) :=
  (left (recordedTurn selection graph { toSearch := s })).read

/-- What is done to the search alone leaves the record as it is. -/
theorem onSearch_keeps_read (attempt : Attempt Search α) (read : List (Nat × Nat)) :
    Keeps (·.read = read) (onSearch attempt) := by
  intro r same
  rw [onSearch]
  cases attempt r.toSearch <;> exact same

/-- What follows leaves the record as it is, if it is done to the search alone. -/
theorem read_bind {β : Type} {first : Attempt Recorder α} {next : α → Attempt Recorder β}
    (keeps : ∀ a read, Keeps (·.read = read) (next a)) (r : Recorder) :
    (left ((first >>= next) r)).read = (left (first r)).read := by
  cases ran : first r with
  | ok a t =>
    rw [bind_of_ok ran]
    exact keeps a t.read t rfl
  | error failure t => rw [bind_of_error ran, left, left]

/-- A turn reads the row of the top, from where it was left, and nothing else. -/
theorem slots_eq {s : Search} {top : UInt32} {rest : List UInt32} {state : PointState}
    (path : s.path = top :: rest) (found : stateAt top.toNat s = .ok state s) :
    s.slots selection graph =
      (left (readRow selection top.toNat
        ((Adjacency.row graph top.toNat).drop state.position.toNat) state.position.toNat
        { toSearch := s })).read := by
  have got : (get : Attempt Recorder Recorder) { toSearch := s } =
      .ok { toSearch := s } { toSearch := s } := rfl
  have found' : onSearch (stateAt top.toNat) { toSearch := s } = .ok state { toSearch := s } := by
    rw [onSearch, found]
  rw [Search.slots, recordedTurn, bind_of_ok got]
  simp only [path]
  rw [bind_of_ok found']
  refine read_bind (fun ⟨next, stop⟩ read => ?_) _
  refine (onSearch_keeps_read _ read).bind fun _ => ?_
  cases next with
  | none => exact (onSearch_keeps_read _ read).bind fun _ => .pure _
  | some neighbor => exact (onSearch_keeps_read _ read).bind fun _ => .pure _

/-- Where the path is empty a turn reads nothing. -/
theorem slots_of_path_nil {s : Search} (path : s.path = []) : s.slots selection graph = [] := by
  have got : (get : Attempt Recorder Recorder) { toSearch := s } =
      .ok { toSearch := s } { toSearch := s } := rfl
  rw [Search.slots, recordedTurn, bind_of_ok got]
  simp only [path]
  rfl

end Navigability.Component
