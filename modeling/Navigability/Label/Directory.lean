import Navigability.Failure
import Navigability.Text.Fields
import Navigability.Text.Lines
import Std.Data.TreeMap

/-!
# Label directories

A label directory resolves the ids that queries filter by into labels. It is a finite map in which
the last binding of an id counts; an id without a binding resolves to the empty label, which no
selection has members for.

In its text form a directory has one binding per line: the id, a tab, the label, and possibly more
columns, which are ignored. Lines without a tab bind nothing, and carriage returns at the end of a
line are no part of it.

## Main definitions

* `LabelDirectory.insert`, `LabelDirectory.resolve`: bind an id, look an id up
* `LabelDirectory.read source`: the directory of a text
* `LabelDirectory.reload source`: replace the bindings by those of a text, if it can be read

## Main results

* `LabelDirectory.resolve_insert`: the last binding of an id counts
-/

namespace Navigability

open Text

/-- The bindings of ids to labels. -/
structure LabelDirectory where
  entries : Std.TreeMap String String := ∅

namespace LabelDirectory

/-- The directory without bindings. -/
def empty : LabelDirectory := {}

instance : EmptyCollection LabelDirectory := ⟨empty⟩

/-- Bind `id` to `label`, in place of an earlier binding. -/
def insert (directory : LabelDirectory) (id label : String) : LabelDirectory :=
  { entries := directory.entries.insert id label }

/-- The label of `id`, or the empty label. -/
def resolve (directory : LabelDirectory) (id : String) : String :=
  directory.entries.getD id ""

/-- How many ids are bound. -/
def size (directory : LabelDirectory) : Nat := directory.entries.size

/-- Whether no id is bound. -/
def isEmpty (directory : LabelDirectory) : Bool := directory.entries.isEmpty

@[simp] theorem resolve_empty (id : String) : empty.resolve id = "" := by
  simp [empty, resolve]

theorem resolve_insert (directory : LabelDirectory) (id label other : String) :
    (directory.insert id label).resolve other =
      if id = other then label else directory.resolve other := by
  simp [insert, resolve, Std.TreeMap.getD_insert]

/-- A line without the carriage returns at its end. -/
def dropReturns (line : List Char) : List Char :=
  (line.reverse.dropWhile (· == '\r')).reverse

/-- The binding on a line of the text form, if it has one. -/
def binding? (line : List Char) : Option (String × String) :=
  match fields '\t' (dropReturns line) with
  | id :: label :: _ => some (String.ofList id, String.ofList label)
  | _ => none

/-- The directory of a list of bindings, the last of an id counting. -/
def ofBindings (bindings : List (String × String)) : LabelDirectory :=
  bindings.foldl (fun directory binding => directory.insert binding.1 binding.2) empty

/-- The directory of a text. -/
def read (source : ByteSource) : Except Failure LabelDirectory :=
  match source.lines with
  | .ok lines => .ok (ofBindings (lines.filterMap binding?))
  | .error cause => .error (.unreadable cause)

/-- Replace the bindings by those of a text. A text that cannot be read changes nothing. -/
def reload (source : ByteSource) : EStateM Failure LabelDirectory Unit := fun directory =>
  match read source with
  | .ok loaded => .ok () loaded
  | .error failure => .error failure directory

end LabelDirectory

end Navigability
