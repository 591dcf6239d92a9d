/-!
# Component listings

A component listing gives the strongly connected components of a label, each as the list of its
points. The counts and the look-up are taken from exactly what a listing holds, whether a search
produced it or it was read from elsewhere: its components may be empty, overlap, or name points of
any size.

## Main definitions

* `Listing`: a label, its member count, and its components
* `Listing.largest`, `Listing.singletons`: the size of a largest component, the number of
  components of one point
* `Listing.indices n`: for each of `n` points, the position of the component that holds it

## Main results

* `Listing.size_indices`: the look-up answers for exactly `n` points
-/

namespace Navigability.Component

/-- The components of a label. -/
structure Listing where
  label : String
  memberCount : Nat
  components : List (List Nat)
  deriving DecidableEq

namespace Listing

/-- How many components there are. -/
def size (listing : Listing) : Nat := listing.components.length

/-- Whether there is no component. -/
def isEmpty (listing : Listing) : Bool := listing.components.isEmpty

/-- The number of points of a largest component, or zero. -/
def largest (listing : Listing) : Nat :=
  (listing.components.map List.length).foldl max 0

/-- How many components have exactly one point. -/
def singletons (listing : Listing) : Nat :=
  listing.components.countP fun component => component.length == 1

/-- Mark the points of a component with its position, as far as the table reaches. -/
def markPoints (position : Nat) (component : List Nat) (table : Array (Option Nat)) :
    Array (Option Nat) :=
  component.foldl (fun table point => table.setIfInBounds point (some position)) table

/-- Mark the points of components at consecutive positions. -/
def markComponents : Nat → List (List Nat) → Array (Option Nat) → Array (Option Nat)
  | _, [], table => table
  | position, component :: components, table =>
    markComponents (position + 1) components (markPoints position component table)

/-- The position of the component that holds a point, for each of the points below `n`. A point
that several components hold is in the last of them. -/
def indices (listing : Listing) (n : Nat) : List (Option Nat) :=
  (markComponents 0 listing.components (Array.replicate n none)).toList

theorem size_markPoints (position : Nat) (component : List Nat) (table : Array (Option Nat)) :
    (markPoints position component table).size = table.size := by
  induction component generalizing table with
  | nil => rfl
  | cons point component ih =>
    simp only [markPoints, List.foldl_cons] at ih ⊢
    rw [ih, Array.size_setIfInBounds]

theorem size_markComponents (position : Nat) (components : List (List Nat))
    (table : Array (Option Nat)) :
    (markComponents position components table).size = table.size := by
  induction components generalizing position table with
  | nil => rfl
  | cons component components ih => rw [markComponents, ih, size_markPoints]

theorem size_indices (listing : Listing) (n : Nat) : (listing.indices n).length = n := by
  simp [indices, size_markComponents]

end Listing

end Navigability.Component
