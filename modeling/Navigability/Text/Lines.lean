import Navigability.Failure

/-!
# Lines of a byte source

A byte source delivers some bytes and then ends, either at the end of the input or with a read
error. A line is finished by a line feed; a carriage return directly in front of the line feed
belongs to it. Bytes after the last line feed are a line of their own if there are any and if the
input ends there: a read error takes their place.

Lines are decoded in order, so of two errors the one of the earlier line is reported, and the
error of the source itself comes after those of all finished lines.

## Main definitions

* `ByteSource`: the delivered bytes, and the read error that cut them off
* `Segments.ofBytes`: the finished lines and what follows the last of them
* `decodeLine`: the characters of a line
* `ByteSource.lines`: the lines of a source

## Main results

* `Segments.ofBytes_cons_lineFeed`, `Segments.ofBytes_cons`: reading one more byte in front
-/

namespace Navigability.Text

/-- The bytes a source delivers, and the error it ends with in place of the end of input. -/
structure ByteSource where
  bytes : List UInt8
  failure : Option ReadError := none

/-- A source that delivers a whole text. -/
def ByteSource.ofString (s : String) : ByteSource := { bytes := s.toUTF8.data.toList }

/-- At most the first `n` bytes of a source, and then the error `cause`. -/
def ByteSource.cutAt (source : ByteSource) (n : Nat) (cause : ReadError) : ByteSource :=
  { bytes := source.bytes.take n, failure := some cause }

/-- The byte that finishes a line. -/
def lineFeed : UInt8 := 10

/-- The byte that belongs to the line feed behind it. -/
def carriageReturn : UInt8 := 13

/-- Bytes cut at the line feeds. -/
structure Segments where
  finished : List (List UInt8)
  rest : List UInt8

namespace Segments

/-- Put one more byte in front. -/
def cons (b : UInt8) (cut : Segments) : Segments :=
  if b = lineFeed then { cut with finished := [] :: cut.finished }
  else match cut.finished with
    | [] => { cut with rest := b :: cut.rest }
    | line :: lines => { cut with finished := (b :: line) :: lines }

/-- Cut bytes at the line feeds, which belong to no segment. -/
def ofBytes (bytes : List UInt8) : Segments :=
  bytes.foldr cons ⟨[], []⟩

@[simp] theorem ofBytes_nil : ofBytes [] = ⟨[], []⟩ := rfl

theorem ofBytes_cons (b : UInt8) (bytes : List UInt8) :
    ofBytes (b :: bytes) = (ofBytes bytes).cons b := rfl

theorem ofBytes_cons_lineFeed (bytes : List UInt8) :
    ofBytes (lineFeed :: bytes) = ⟨[] :: (ofBytes bytes).finished, (ofBytes bytes).rest⟩ := by
  simp [ofBytes_cons, cons]

theorem ofBytes_of_not_mem {bytes : List UInt8} (h : lineFeed ∉ bytes) :
    ofBytes bytes = ⟨[], bytes⟩ := by
  induction bytes with
  | nil => rfl
  | cons b bytes ih =>
    simp only [List.mem_cons, not_or] at h
    simp [ofBytes_cons, ih h.2, cons, Ne.symm h.1]

end Segments

/-- A finished line without the carriage return that belongs to its line feed. -/
def dropReturn (line : List UInt8) : List UInt8 :=
  if line.getLast? = some carriageReturn then line.dropLast else line

/-- The characters of a line. -/
def decodeLine (line : List UInt8) : Except ReadError (List Char) :=
  match String.fromUTF8? ⟨line.toArray⟩ with
  | some text => .ok text.toList
  | none => .error .invalidText

/-- The lines of a source, decoded in order. -/
def ByteSource.lines (source : ByteSource) : Except ReadError (List (List Char)) := do
  let cut := Segments.ofBytes source.bytes
  let finished ← cut.finished.mapM fun line => decodeLine (dropReturn line)
  match source.failure with
  | some cause => throw cause
  | none => if cut.rest.isEmpty then return finished else return finished ++ [← decodeLine cut.rest]

end Navigability.Text
