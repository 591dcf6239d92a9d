import Mathlib.Data.List.DropRight
import Navigability.Proofs.Text.Lines
import Navigability.Text.Fields
import Navigability.Text.WhiteSpace

/-!
# Fields of a line

The fields of a line are its parts between the separators: no field has a separator in it, and
fields without separators that are put together with separators between them are the fields of what
comes out. Trimming a field takes away white space in front and behind, as much as there is, and
leaves text that neither begins nor ends with white space.

## Main definitions

* `Blank s`: whether a text is white space only

## Main results

* `fields_eq_splitOn`: the fields are what is between the separators
* `trim_blank_append`, `trim_append_blank`: white space at the ends does not matter
* `not_isWhiteSpace_of_head_trim`, `not_isWhiteSpace_of_getLast_trim`: none is left there
-/

namespace Navigability.Text

/-! ## Fields -/

theorem fields_eq_splitOn (sep : Char) (s : List Char) : fields sep s = s.splitOn sep := by
  induction s with
  | nil => rfl
  | cons c s ih =>
    rw [List.splitOn_cons_eq_if_modifyHead, ← ih]
    by_cases same : c = sep
    · rw [same, fields_cons_sep, if_pos (BEq.refl sep)]
    · rw [if_neg (by simpa using same)]
      cases rest : fields sep s with
      | nil => exact absurd rest (fields_ne_nil sep s)
      | cons field rest' => exact fields_cons_ne same rest

variable {sep : Char} {s field : List Char}

theorem not_mem_of_mem_splitOn (mem : field ∈ s.splitOn sep) : sep ∉ field := by
  induction s using line_induction sep with
  | unfinished s clear =>
    rw [List.splitOn_eq_singleton clear] at mem
    exact List.mem_singleton.1 mem ▸ clear
  | finished line s clear ih =>
    rw [List.splitOn_append_cons_self_of_not_mem clear] at mem
    rcases List.mem_cons.1 mem with rfl | later
    · exact clear
    · exact ih later

theorem subset_of_mem_splitOn (mem : field ∈ s.splitOn sep) : field ⊆ s := by
  induction s using line_induction sep with
  | unfinished s clear =>
    rw [List.splitOn_eq_singleton clear] at mem
    rw [List.mem_singleton.1 mem]
    exact List.Subset.refl s
  | finished line s clear ih =>
    rw [List.splitOn_append_cons_self_of_not_mem clear] at mem
    rcases List.mem_cons.1 mem with rfl | later
    · exact List.subset_append_left ..
    · have behind : s ⊆ sep :: s := List.subset_cons_self ..
      exact List.Subset.trans (ih later) (List.Subset.trans behind (List.subset_append_right ..))

/-! ## Trimming -/

/-- Whether a text is white space only. -/
def Blank (s : List Char) : Prop := ∀ c ∈ s, isWhiteSpace c

instance (s : List Char) : Decidable (Blank s) :=
  List.decidableBAll (fun c => isWhiteSpace c) s

variable {before after : List Char}

theorem trim_blank_append (blank : Blank before) (s : List Char) :
    trim (before ++ s) = trim s := by
  rw [trim, List.dropWhile_append_of_pos blank, trim]

theorem trim_append_blank (s : List Char) (blank : Blank after) :
    trim (s ++ after) = trim s := by
  have all : after.dropWhile isWhiteSpace = [] := by
    simpa [Blank] using blank
  have back : ∀ t : List Char, (t ++ after).reverse.dropWhile isWhiteSpace =
      t.reverse.dropWhile isWhiteSpace := by
    intro t
    rw [List.reverse_append, List.dropWhile_append_of_pos]
    intro c mem
    exact blank c (List.mem_reverse.1 mem)
  rw [trim, trim, List.dropWhile_append, all]
  split
  · next empty =>
    rw [List.isEmpty_iff.1 empty]
  · rw [back]

theorem trim_of_blank (blank : Blank s) : trim s = [] := by
  simpa using trim_blank_append blank []

theorem trim_subset (s : List Char) : trim s ⊆ s := by
  intro c mem
  have mem := (List.dropWhile_subset _) (List.mem_reverse.1 mem)
  exact (List.dropWhile_subset _) (List.mem_reverse.1 mem)

/-- The first character that is left of a text after the white space in front is none. -/
theorem not_isWhiteSpace_of_head_dropWhile {c : Char}
    (first : (s.dropWhile isWhiteSpace).head? = some c) : isWhiteSpace c = false := by
  have kept := List.head?_dropWhile_not isWhiteSpace s
  rwa [first] at kept

theorem not_isWhiteSpace_of_getLast_trim {c : Char} (last : (trim s).getLast? = some c) :
    isWhiteSpace c = false := by
  rw [trim, List.getLast?_reverse] at last
  exact not_isWhiteSpace_of_head_dropWhile last

theorem not_isWhiteSpace_of_head_trim {c : Char} (first : (trim s).head? = some c) :
    isWhiteSpace c = false := by
  obtain ⟨rest, shape⟩ : trim s <+: s.dropWhile isWhiteSpace := List.rdropWhile_prefix _ _
  apply not_isWhiteSpace_of_head_dropWhile
  rw [← shape, List.head?_append, first]
  rfl

end Navigability.Text
