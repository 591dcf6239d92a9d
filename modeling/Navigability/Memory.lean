import Navigability.Failure

/-!
# Memory

Most storage is as large as what an analysis is given. Where an analysis reserves more than that,
it depends on how much a machine can give at once, which is a parameter here. Room that is not given
is a fault, and what has asked for it ends there.

## Main definitions

* `Memory`: how much a machine can give at once
* `reserve`: ask for a number of bytes
-/

namespace Navigability

/-- How much a machine can give at once. -/
class Memory where
  /-- The most bytes that can be reserved in one piece. -/
  largest : Nat
  /-- Sizes in bytes are numbers of 63 bits. -/
  largest_lt : largest < UInt64.size / 2

/-- A machine that gives whatever has a size. -/
instance Memory.ample : Memory where
  largest := UInt64.size / 2 - 1
  largest_lt := by decide

/-- Ask for a number of bytes in one piece. -/
def reserve [Memory] (bytes : Nat) : Except Failure Unit :=
  if bytes ≤ Memory.largest then .ok () else .error (.fault (.outOfMemory bytes))

end Navigability
