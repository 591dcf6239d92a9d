import Navigability.Failure

/-!
# Checked storage

Arrays that hold one entry for each point are read and written by position. An access outside the
array is a fault and changes nothing. Storage is kept between runs: a new run refills the array it
finds instead of asking for a new one.

## Main definitions

* `fetch`: read one entry
* `overwrite`: write a list of entries side by side
* `refill a n v`: the array `a`, emptied and filled with `n` copies of `v`

## Main results

* `fetch_of_lt`: an access inside the array succeeds
* `refill_eq`: nothing of the old content is left
-/

namespace Navigability

variable {α : Type}

/-- The fault of an access at `index` to an array of the given size. -/
def Failure.outOfStorage (index size : Nat) : Failure := .fault (.outOfStorage index size)

/-- The entry at an index. -/
def fetch (a : Array α) (index : Nat) : Except Failure α :=
  if h : index < a.size then .ok a[index] else .error (.outOfStorage index a.size)

/-- Write values side by side from an index on, as far as the array reaches. -/
def overwrite (a : Array α) (index : Nat) : List α → Array α
  | [] => a
  | value :: values => overwrite (a.setIfInBounds index value) (index + 1) values

/-- Push `n` copies of a value. -/
def pushCopies (value : α) : Nat → Array α → Array α
  | 0, a => a
  | n + 1, a => pushCopies value n (a.push value)

/-- An array of `n` copies of a value, in the place of another array. -/
def refill (a : Array α) (n : Nat) (value : α) : Array α :=
  pushCopies value n (a.shrink 0)

theorem fetch_of_lt {a : Array α} {index : Nat} (h : index < a.size) :
    fetch a index = .ok a[index] := by
  simp [fetch, h]

theorem toList_pushCopies (value : α) (n : Nat) (a : Array α) :
    (pushCopies value n a).toList = a.toList ++ List.replicate n value := by
  induction n generalizing a with
  | zero => simp [pushCopies]
  | succ n ih => simp [pushCopies, ih, List.replicate_succ]

@[simp] theorem refill_eq (a : Array α) (n : Nat) (value : α) :
    refill a n value = Array.replicate n value := by
  apply Array.toList_inj.1
  simp [refill, toList_pushCopies]

@[simp] theorem size_overwrite (a : Array α) (index : Nat) (values : List α) :
    (overwrite a index values).size = a.size := by
  induction values generalizing a index with
  | nil => rfl
  | cons value values ih => simp [overwrite, ih]

end Navigability
