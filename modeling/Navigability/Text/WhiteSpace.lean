/-!
# White space

The characters that separate words in running text: the tab to carriage return block, the space,
the next-line control, and the spaces and separators of the general punctuation and ideographic
blocks. Trimming removes them from both ends of a text.

## Main definitions

* `isWhiteSpace c`: the membership test, over a table of code point ranges
* `trim s`: `s` without the white space at its ends

## Main results

* `trim_eq_self`: a text with no white space at either end is left alone
-/

namespace Navigability.Text

/-- The code points with the white space property, as closed ranges in ascending order. -/
def whiteSpaceRanges : List (Nat × Nat) :=
  [(0x0009, 0x000D), (0x0020, 0x0020), (0x0085, 0x0085), (0x00A0, 0x00A0), (0x1680, 0x1680),
    (0x2000, 0x200A), (0x2028, 0x2029), (0x202F, 0x202F), (0x205F, 0x205F), (0x3000, 0x3000)]

/-- Whether `c` has the white space property. -/
def isWhiteSpace (c : Char) : Bool :=
  whiteSpaceRanges.any fun range => range.1 ≤ c.toNat && c.toNat ≤ range.2

/-- The part of `s` between its first and its last character that is not white space. -/
def trim (s : List Char) : List Char :=
  ((s.dropWhile isWhiteSpace).reverse.dropWhile isWhiteSpace).reverse

@[simp] theorem trim_nil : trim [] = [] := rfl

theorem trim_eq_self {s : List Char} (first : ∀ c ∈ s.head?, isWhiteSpace c = false)
    (last : ∀ c ∈ s.getLast?, isWhiteSpace c = false) : trim s = s := by
  have keep : ∀ t : List Char, (∀ c ∈ t.head?, isWhiteSpace c = false) →
      t.dropWhile isWhiteSpace = t := by
    intro t ht
    cases t with
    | nil => rfl
    | cons c r => simp [ht c rfl]
  rw [trim, keep s first, keep s.reverse (by simpa using last), List.reverse_reverse]

end Navigability.Text
