import Mathlib.Data.List.Basic
import Navigability.Proofs.Text.Encoding

/-!
# Lines of a text

A text is cut at its newlines. Every newline finishes a line, and what is behind the last newline is
a line if it is not empty. A carriage return at the end of a finished line is no part of it; only
one is taken away, and none from a line that is not finished.

The source of a text delivers just these lines. A source of other bytes may fail, but where it
delivers lines, there is no newline in them.

## Main definitions

* `linesOf s`: the lines of the text `s`
* `withoutReturn line`: a line without the carriage return at its end

## Main results

* `line_induction`: from a text to the text with one more line in front
* `linesOf_append`: the lines of a text behind finished lines
* `ByteSource.lines_ofString`: the source of a text delivers its lines
* `ByteSource.not_mem_of_lines`: no newline is delivered
-/

namespace Navigability.Text

/-! ## Cutting a text -/

/-- A text has no newline, or is a line, a newline, and the text behind it. -/
@[elab_as_elim]
theorem line_induction {α : Type} [DecidableEq α] (newline : α) {motive : List α → Prop}
    (unfinished : ∀ s, newline ∉ s → motive s)
    (finished : ∀ line s, newline ∉ line → motive s → motive (line ++ newline :: s))
    (s : List α) : motive s := by
  induction length : s.length using Nat.strongRecOn generalizing s with
  | ind n ih =>
    by_cases mem : newline ∈ s
    · obtain ⟨line, rest, rfl, clear⟩ := List.eq_append_cons_of_mem mem
      refine finished line rest clear (ih rest.length ?_ rest rfl)
      rw [← length, List.length_append, List.length_cons]
      omega
    · exact unfinished s mem

/-- A line without the carriage return at its end, if there is one. -/
def withoutReturn (line : List Char) : List Char :=
  if line.getLast? = some '\r' then line.dropLast else line

theorem withoutReturn_concat (line : List Char) : withoutReturn (line ++ ['\r']) = line := by
  rw [withoutReturn, if_pos List.getLast?_concat, List.dropLast_concat]

theorem eq_withoutReturn_or (line : List Char) :
    withoutReturn line = line ∨ withoutReturn line ++ ['\r'] = line := by
  rw [withoutReturn]
  split
  · next last =>
    obtain ⟨front, rfl⟩ := List.getLast?_eq_some_iff.1 last
    exact .inr (by rw [List.dropLast_concat])
  · exact .inl rfl

/-- The lines of a text. -/
def linesOf (s : List Char) : List (List Char) :=
  (s.splitOn '\n').dropLast.map withoutReturn ++
    (s.splitOn '\n').getLast?.toList.filter fun rest => !rest.isEmpty

variable {s line : List Char}

theorem linesOf_of_not_mem (clear : '\n' ∉ s) : linesOf s = if s.isEmpty then [] else [s] := by
  rw [linesOf, List.splitOn_eq_singleton clear]
  cases s <;> rfl

theorem linesOf_line (clear : '\n' ∉ line) (s : List Char) :
    linesOf (line ++ '\n' :: s) = withoutReturn line :: linesOf s := by
  have more := List.splitOn_ne_nil '\n' s
  rw [linesOf, List.splitOn_append_cons_self_of_not_mem clear, List.dropLast_cons_of_ne_nil more,
    List.getLast?_cons_of_ne_nil more]
  rfl

/-- **The lines behind finished lines** are those of the rest of the text. -/
theorem linesOf_append (whole : s = [] ∨ s.getLast? = some '\n') (t : List Char) :
    linesOf (s ++ t) = linesOf s ++ linesOf t := by
  induction s using line_induction '\n' with
  | unfinished s clear =>
    rcases whole with rfl | last
    · rfl
    · exact absurd (List.mem_of_getLast? last) clear
  | finished line s clear ih =>
    rw [List.append_assoc, List.cons_append, linesOf_line clear, linesOf_line clear,
      List.cons_append]
    congr 1
    apply ih
    rcases eq_or_ne s [] with rfl | more
    · exact .inl rfl
    · rw [List.getLast?_append_cons, List.getLast?_cons_of_ne_nil more] at whole
      exact .inr (whole.resolve_left (by simp))

/-! ## Cutting bytes -/

theorem lineFeed_eq : lineFeed = '\n'.toUInt8 := rfl

theorem carriageReturn_eq : carriageReturn = '\r'.toUInt8 := rfl

theorem lineFeed_mem_encode_iff : lineFeed ∈ encode s ↔ '\n' ∈ s := by
  have ascii : IsAscii '\n' := by decide
  rw [lineFeed_eq, ascii.mem_encode_iff]

theorem encode_line (line s : List Char) :
    encode (line ++ '\n' :: s) = encode line ++ lineFeed :: encode s := by
  have ascii : IsAscii '\n' := by decide
  rw [encode_append, ← List.singleton_append, encode_append, ascii.encode_singleton]
  rfl

theorem dropReturn_encode (line : List Char) :
    dropReturn (encode line) = encode (withoutReturn line) := by
  have ascii : IsAscii '\r' := by decide
  rw [dropReturn, withoutReturn, carriageReturn_eq]
  simp only [ascii.getLast?_encode_iff]
  split
  · next last =>
    obtain ⟨front, rfl⟩ := List.getLast?_eq_some_iff.1 last
    rw [encode_append, ascii.encode_singleton, List.dropLast_concat, List.dropLast_concat]
  · rfl

theorem dropReturn_subset (line : List UInt8) : dropReturn line ⊆ line := by
  rw [dropReturn]
  split
  · exact List.dropLast_subset line
  · exact List.Subset.refl line

theorem Segments.ofBytes_line {line : List UInt8} (clear : lineFeed ∉ line) (bytes : List UInt8) :
    ofBytes (line ++ lineFeed :: bytes) =
      ⟨line :: (ofBytes bytes).finished, (ofBytes bytes).rest⟩ := by
  induction line with
  | nil => exact ofBytes_cons_lineFeed bytes
  | cons b line ih =>
    simp only [List.mem_cons, not_or] at clear
    rw [List.cons_append, ofBytes_cons, ih clear.2, cons, if_neg (Ne.symm clear.1)]

/-! ## What a source delivers -/

/-- Two computations in a row succeed only if both do. -/
theorem of_bind_eq_ok {ε α β : Type} {first : Except ε α} {next : α → Except ε β} {b : β}
    (ok : first >>= next = .ok b) : ∃ a, first = .ok a ∧ next a = .ok b := by
  cases first with
  | error cause => cases ok
  | ok a => exact ⟨a, rfl, ok⟩

namespace ByteSource

variable {failure : Option ReadError}

/-- **A finished line** is decoded before all lines behind it. -/
theorem lines_line {line : List UInt8} (clear : lineFeed ∉ line) (bytes : List UInt8) :
    lines { bytes := line ++ lineFeed :: bytes, failure } = do
      let first ← decodeLine (dropReturn line)
      return first :: (← lines { bytes, failure }) := by
  simp only [lines, Segments.ofBytes_line clear, List.mapM_cons]
  cases decodeLine (dropReturn line) with
  | error cause => rfl
  | ok first =>
    cases (Segments.ofBytes bytes).finished.mapM fun line => decodeLine (dropReturn line) with
    | error cause => rfl
    | ok finished =>
      cases failure with
      | some cause => rfl
      | none =>
        show (if _ then _ else _) = (if _ then _ else _) >>= _
        split
        · rfl
        · cases decodeLine (Segments.ofBytes bytes).rest <;> rfl

theorem lines_of_not_mem {bytes : List UInt8} (clear : lineFeed ∉ bytes) :
    lines { bytes, failure } = match failure with
      | some cause => .error cause
      | none => if bytes.isEmpty then .ok [] else return [← decodeLine bytes] := by
  simp only [lines, Segments.ofBytes_of_not_mem clear]
  cases failure with
  | some cause => rfl
  | none =>
    show (if _ then _ else _) = if _ then _ else _
    split
    · rfl
    · cases decodeLine bytes <;> rfl

theorem lines_encode (s : List Char) : lines { bytes := encode s } = .ok (linesOf s) := by
  induction s using line_induction '\n' with
  | unfinished s clear =>
    have clear' : lineFeed ∉ encode s := clear ∘ lineFeed_mem_encode_iff.1
    rw [lines_of_not_mem clear', linesOf_of_not_mem clear, decodeLine_encode]
    cases s with
    | nil => rfl
    | cons c s =>
      have more : encode (c :: s) ≠ [] := by simp
      simp only [List.isEmpty_iff, more, if_false, List.cons_ne_nil]
      rfl
  | finished line s clear ih =>
    have clear' : lineFeed ∉ encode line := clear ∘ lineFeed_mem_encode_iff.1
    rw [encode_line, lines_line clear', dropReturn_encode, decodeLine_encode, ih,
      linesOf_line clear]
    rfl

/-- **The source of a text** delivers the lines of the text. -/
theorem lines_ofString (s : String) : (ofString s).lines = .ok (linesOf s.toList) := by
  rw [← lines_encode, ← bytes_ofString]
  rfl

/-- **No newline is delivered**, whatever the bytes are: it would have been decoded from a line
feed. -/
theorem not_mem_of_lines {source : ByteSource} {delivered : List (List Char)}
    (ok : source.lines = .ok delivered) (mem : line ∈ delivered) : '\n' ∉ line := by
  obtain ⟨bytes, failure⟩ := source
  have decoded {segment : List UInt8} {text : List Char} (clear : lineFeed ∉ segment)
      (ok : decodeLine segment = .ok text) : '\n' ∉ text := by
    rw [decodeLine_eq_ok_iff.1 ok] at clear
    exact clear ∘ lineFeed_mem_encode_iff.2
  induction bytes using line_induction lineFeed generalizing delivered with
  | unfinished bytes clear =>
    rw [lines_of_not_mem clear] at ok
    cases failure with
    | some cause => cases ok
    | none =>
      dsimp only at ok
      split at ok
      · cases ok
        cases mem
      · obtain ⟨text, rest, ok⟩ := of_bind_eq_ok ok
        cases ok
        rw [List.mem_singleton.1 mem]
        exact decoded clear rest
  | finished segment bytes clear ih =>
    rw [lines_line clear] at ok
    obtain ⟨text, first, ok⟩ := of_bind_eq_ok ok
    obtain ⟨delivered', rest, ok⟩ := of_bind_eq_ok ok
    cases ok
    rcases List.mem_cons.1 mem with rfl | later
    · exact decoded (fun feed => clear (dropReturn_subset segment feed)) first
    · exact ih later rest

end ByteSource

end Navigability.Text
