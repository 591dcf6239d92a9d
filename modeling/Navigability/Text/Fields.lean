/-!
# Separated fields

A line is a sequence of fields with a separator character between any two of them. There is
always one field more than there are separators, so the empty line has one empty field.

## Main definitions

* `fields sep s`: the fields of `s`, in order

## Main results

* `fields_cons_sep`, `fields_cons_ne`: reading one more character in front
* `fields_of_not_mem`: a line without the separator is its only field
-/

namespace Navigability.Text

/-- Put one more character in front of a line whose fields are known. -/
def addToFields (sep c : Char) : List (List Char) → List (List Char)
  | [] => if c = sep then [[], []] else [[c]]
  | field :: rest => if c = sep then [] :: field :: rest else (c :: field) :: rest

/-- The fields of a line, in order. -/
def fields (sep : Char) (s : List Char) : List (List Char) :=
  s.foldr (addToFields sep) [[]]

@[simp] theorem fields_nil (sep : Char) : fields sep [] = [[]] := rfl

theorem fields_ne_nil (sep : Char) (s : List Char) : fields sep s ≠ [] := by
  cases s with
  | nil => simp
  | cons c s =>
    simp only [fields, List.foldr_cons, addToFields]
    split <;> split <;> simp

@[simp] theorem fields_cons_sep (sep : Char) (s : List Char) :
    fields sep (sep :: s) = [] :: fields sep s := by
  cases h : fields sep s with
  | nil => exact absurd h (fields_ne_nil sep s)
  | cons field rest =>
    simp only [fields, List.foldr_cons] at h ⊢
    simp [h, addToFields]

theorem fields_cons_ne {sep c : Char} {s field : List Char} {rest : List (List Char)} (hc : c ≠ sep)
    (h : fields sep s = field :: rest) : fields sep (c :: s) = (c :: field) :: rest := by
  simp only [fields, List.foldr_cons] at h ⊢
  simp [h, addToFields, hc]

theorem fields_of_not_mem {sep : Char} {s : List Char} (h : sep ∉ s) : fields sep s = [s] := by
  induction s with
  | nil => rfl
  | cons c s ih =>
    simp only [List.mem_cons, not_or] at h
    exact fields_cons_ne (Ne.symm h.1) (ih h.2)

end Navigability.Text
