import Navigability.Json.Value

/-!
# Stored forms

A type with a stored form can be written as a data value and read back. A number is stored as an
integer, and read only if it is not negative and less than two to the power of 64. A record is
written as an object; it is read from an object or from an array of its fields.

## Main definitions

* `Stored α`: how an `α` is written and read
* `number?`: the limits of a stored number

## Main results

* `decode?_encode_nat`, `decode?_encode_list`: what is written can be read
-/

namespace Navigability.Json

/-- How a value of a type is written and read. -/
class Stored (α : Type) where
  encode : α → Value
  decode? : Value → Option α

export Stored (encode decode?)

/-- The least number that cannot be stored. -/
def numberLimit : Nat := UInt64.size

/-- A stored number. -/
def number? : Value → Option Nat
  | .integer n => if 0 ≤ n ∧ n < numberLimit then some n.toNat else none
  | _ => none

/-- A stored text. -/
def text? : Value → Option String
  | .string s => some s
  | _ => none

/-- A stored list. -/
def list? {α : Type} (decode : Value → Option α) : Value → Option (List α)
  | .array items => items.mapM decode
  | _ => none

instance : Stored Nat where
  encode n := .integer n
  decode? := number?

instance : Stored String where
  encode := .string
  decode? := text?

instance {α : Type} [Stored α] : Stored (List α) where
  encode items := .array (items.map encode)
  decode? := list? decode?

theorem decode?_encode_nat {n : Nat} (h : n < numberLimit) : decode? (encode n) = some n := by
  have : (n : Int) < numberLimit := Int.ofNat_lt.2 h
  simp [encode, decode?, number?, this]

@[simp] theorem decode?_encode_string (s : String) : decode? (encode s) = some s := rfl

theorem decode?_encode_list {α : Type} [Stored α] {items : List α}
    (h : ∀ a ∈ items, decode? (encode a) = some a) : decode? (encode items) = some items := by
  simp only [encode, decode?, list?]
  induction items with
  | nil => rfl
  | cons a items ih =>
    simp only [List.mem_cons, forall_eq_or_imp] at h
    simp [h.1, ih h.2]

end Navigability.Json
