/-!
# Why an operation fails

A failure is a disagreement between the parts of an analysis: a neighbor list that names a point
outside the selection, an entry point outside it, more points than the 32-bit point storage can
number, or label input that cannot be read. A label without members is an empty analysis and
never a failure.

`Fault` is different in kind: an index outside its storage, a counter at its limit, or memory that
cannot be had. The searches reach their storage through checked accesses, and a fault is what a
check that does not hold comes to. A fault is not returned to anybody: it is the end of what was
going on.

## Main definitions

* `ReadError`: what a byte source reports when it cannot deliver
* `Fault`: a checked access, a checked counter or a reservation that did not hold
* `Failure`: the outcome of a failed operation
* `Failure.Returned`: whether an operation returns it
* `Failure.message`: the text of a failure
-/

namespace Navigability

/-- The classes of read errors that callers tell apart. -/
inductive ReadErrorKind where
  | invalidData
  | connectionReset
  | other
  deriving DecidableEq

/-- What a byte source reports when it cannot deliver. -/
structure ReadError where
  kind : ReadErrorKind
  text : String
  deriving DecidableEq

/-- Bytes that are no text. -/
def ReadError.invalidText : ReadError := ⟨.invalidData, "stream did not contain valid UTF-8"⟩

/-- A checked access, a checked counter or a reservation that did not hold. -/
inductive Fault where
  | outOfStorage (index size : Nat)
  | counterLimit
  /-- The machine did not give so many bytes at once. -/
  | outOfMemory (bytes : Nat)
  deriving DecidableEq

/-- The outcome of a failed operation. -/
inductive Failure where
  /-- The neighbor list of `point` names `neighbor`, which is none of the `pointCount` points. -/
  | neighborOutOfRange (point neighbor pointCount : Nat)
  /-- A traversal was to start at `entry`, which is none of the `pointCount` points. -/
  | entryOutOfRange (entry pointCount : Nat)
  /-- The storage numbers points in 32 bits and cannot hold `pointCount` of them. -/
  | tooManyPoints (pointCount : Nat)
  /-- Label input could not be read. -/
  | unreadable (cause : ReadError)
  /-- A check inside an operation did not hold. -/
  | fault (cause : Fault)
  deriving DecidableEq

/-- Whether an operation returns a failure, and does not end with it as with a fault. -/
def Failure.Returned : Failure → Prop
  | fault _ => False
  | _ => True

/-- The least point count that the 32-bit storage refuses: visit numbers start at one, so the
largest 32-bit value has to stay unused. -/
def pointLimit : Nat := UInt32.size - 1

/-- The text of a fault. -/
def Fault.message : Fault → String
  | outOfStorage index size => s!"index {index} outside storage of size {size}"
  | counterLimit => "counter at its limit"
  | outOfMemory bytes => s!"no memory for {bytes} bytes"

/-- The text of a failure. -/
def Failure.message : Failure → String
  | neighborOutOfRange point neighbor pointCount =>
    s!"point {point} has neighbor {neighbor} outside [0, {pointCount})"
  | entryOutOfRange entry pointCount => s!"seed {entry} outside [0, {pointCount})"
  | tooManyPoints pointCount =>
    s!"graph has {pointCount} points, more than the supported {pointLimit}"
  | unreadable cause => "failed to read label input: " ++ cause.text
  | fault cause => cause.message

end Navigability
