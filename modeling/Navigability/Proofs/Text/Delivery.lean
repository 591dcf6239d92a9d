import Navigability.Proofs.Text.Lines

/-!
# What a source can deliver

The lines of a source are decoded one after another. The byte of the newline occurs in the encoding
of no other character, so cutting at it cuts no character in two, and bytes are a text just when all
their lines are. A source that ends with a read error delivers nothing: it is the error that is
reported, unless a finished line in front of it is no text. What the error has cut off in the middle
of a line is never looked at.

## Main definitions

* `IsText bytes`: whether bytes are valid UTF-8
* `FinishedLine line bytes`: a line that a newline finishes
* `Torn bytes`: whether a finished line is no text

## Main results

* `isText_line_iff`: bytes are a text when their first line and the bytes behind it are
* `finishedLine_line_iff`: the finished lines, from the first one on
* `ByteSource.lines_whole`: a source that ends delivers lines if its bytes are a text
* `ByteSource.lines_cut`: which of two errors is reported when a source is cut off
-/

namespace Navigability.Text

/-! ## Valid bytes -/

/-- Whether bytes are the bytes of a text, in UTF-8. -/
def IsText (bytes : List UInt8) : Prop := bytes.toByteArray.IsValidUTF8

instance (bytes : List UInt8) : Decidable (IsText bytes) :=
  inferInstanceAs (Decidable bytes.toByteArray.IsValidUTF8)

variable {bytes line first rest : List UInt8}

theorem isText_iff : IsText bytes ↔ ∃ s, encode s = bytes := by
  constructor
  · rintro ⟨s, same⟩
    refine ⟨s, ?_⟩
    have data := congrArg ByteArray.data same
    rw [← toByteArray_encode, List.data_toByteArray, List.data_toByteArray] at data
    exact (Array.toList_inj.2 data).symm
  · rintro ⟨s, rfl⟩
    exact ⟨s, toByteArray_encode s⟩

theorem decodeLine_of_isText (valid : IsText line) : ∃ s, decodeLine line = .ok s := by
  obtain ⟨s, rfl⟩ := isText_iff.1 valid
  exact ⟨s, decodeLine_encode s⟩

theorem decodeLine_of_not_isText (invalid : ¬ IsText line) :
    decodeLine line = .error .invalidText := by
  cases decoded : decodeLine line with
  | ok s => exact absurd (isText_iff.2 ⟨s, (decodeLine_eq_ok_iff.1 decoded).symm⟩) invalid
  | error cause =>
    rw [decodeLine] at decoded
    split at decoded
    · cases decoded
    · exact decoded.symm

/-- Cut at its first separator, a list has one part in front of it and one part behind it. -/
theorem append_cons_inj_of_not_mem {α : Type} {sep : α} {x y s t : List α} (clear : sep ∉ x)
    (clear' : sep ∉ y) : x ++ sep :: s = y ++ sep :: t ↔ x = y ∧ s = t := by
  constructor
  · intro same
    rcases List.append_eq_append_iff.1 same with ⟨more, rfl, rest⟩ | ⟨more, rfl, rest⟩
    · cases more with
      | nil => simpa using rest
      | cons c more =>
        obtain ⟨rfl, -⟩ := List.cons.inj rest
        exact absurd (by simp) clear'
    · cases more with
      | nil => simpa [eq_comm] using rest
      | cons c more =>
        obtain ⟨rfl, -⟩ := List.cons.inj rest
        exact absurd (by simp) clear
  · rintro ⟨rfl, rfl⟩
    rfl

/-- **A newline cuts no character in two**: bytes are a text when their first line and the bytes
behind it are. -/
theorem isText_line_iff (clear : lineFeed ∉ first) :
    IsText (first ++ lineFeed :: rest) ↔ IsText first ∧ IsText rest := by
  simp only [isText_iff]
  constructor
  · rintro ⟨s, same⟩
    have mem : '\n' ∈ s := lineFeed_mem_encode_iff.1 (by simp [same])
    obtain ⟨line, later, rfl, clear'⟩ := List.eq_append_cons_of_mem mem
    rw [encode_line, append_cons_inj_of_not_mem (clear' ∘ lineFeed_mem_encode_iff.1) clear] at same
    exact ⟨⟨line, same.1⟩, ⟨later, same.2⟩⟩
  · rintro ⟨⟨line, rfl⟩, ⟨later, rfl⟩⟩
    exact ⟨line ++ '\n' :: later, encode_line line later⟩

theorem isText_dropReturn_iff : IsText (dropReturn line) ↔ IsText line := by
  simp only [isText_iff]
  constructor
  · rintro ⟨s, same⟩
    rw [dropReturn] at same
    split at same
    · next last =>
      have ascii : IsAscii '\r' := by decide
      obtain ⟨front, rfl⟩ := List.getLast?_eq_some_iff.1 last
      refine ⟨s ++ ['\r'], ?_⟩
      rw [encode_append, same, List.dropLast_concat, ascii.encode_singleton, carriageReturn_eq]
    · exact ⟨s, same⟩
  · rintro ⟨s, rfl⟩
    exact ⟨withoutReturn s, (dropReturn_encode s).symm⟩

/-! ## Finished lines -/

/-- Whether `line` is one of the lines of `bytes` that a newline finishes. -/
def FinishedLine (line bytes : List UInt8) : Prop :=
  ∃ front rest, bytes = front ++ line ++ lineFeed :: rest ∧ lineFeed ∉ line ∧
    (front = [] ∨ front.getLast? = some lineFeed)

/-- Whether one of the finished lines is no text. -/
def Torn (bytes : List UInt8) : Prop := ∃ line, FinishedLine line bytes ∧ ¬ IsText line

/-- **The finished lines** are the first one, which stands in front of the first line feed, and
those behind it. -/
theorem finishedLine_line_iff (clear : lineFeed ∉ first) :
    FinishedLine line (first ++ lineFeed :: rest) ↔ line = first ∨ FinishedLine line rest := by
  constructor
  · rintro ⟨front, later, same, clear', whole⟩
    by_cases feed : lineFeed ∈ front
    · obtain ⟨first', more, rfl, clear''⟩ := List.eq_append_cons_of_mem feed
      rw [List.append_assoc, List.append_assoc, List.cons_append,
        append_cons_inj_of_not_mem clear clear''] at same
      refine .inr ⟨more, later, by rw [same.2, List.append_assoc], clear', ?_⟩
      rcases List.eq_nil_or_concat more with rfl | ⟨more, b, rfl⟩
      · exact .inl rfl
      · simpa [List.getLast?_cons] using whole
    · rcases whole with rfl | last
      · rw [List.nil_append, append_cons_inj_of_not_mem clear clear'] at same
        exact .inl same.1.symm
      · exact absurd (List.mem_of_getLast? last) feed
  · rintro (rfl | ⟨front, later, rfl, clear', whole⟩)
    · exact ⟨[], rest, rfl, clear, .inl rfl⟩
    · refine ⟨first ++ lineFeed :: front, later, by simp, clear', .inr ?_⟩
      rcases whole with rfl | last
      · simp
      · simp [List.getLast?_cons, last]

theorem not_torn (clear : lineFeed ∉ bytes) : ¬ Torn bytes := by
  rintro ⟨line, ⟨front, rest, rfl, -, -⟩, -⟩
  exact clear (by simp)

theorem torn_line_iff (clear : lineFeed ∉ first) :
    Torn (first ++ lineFeed :: rest) ↔ ¬ IsText first ∨ Torn rest := by
  simp only [Torn, finishedLine_line_iff clear, or_and_right, exists_or, exists_eq_left]

/-! ## What is delivered -/

namespace ByteSource

theorem lines_line_of_isText (clear : lineFeed ∉ first) (valid : IsText first) (rest : List UInt8)
    (failure : Option ReadError) :
    ∃ s, lines { bytes := first ++ lineFeed :: rest, failure } =
      (lines { bytes := rest, failure }).map (s :: ·) := by
  obtain ⟨s, decoded⟩ := decodeLine_of_isText (isText_dropReturn_iff.2 valid)
  refine ⟨s, ?_⟩
  rw [lines_line clear, decoded]
  cases lines { bytes := rest, failure } <;> rfl

theorem lines_line_of_not_isText (clear : lineFeed ∉ first) (invalid : ¬ IsText first)
    (rest : List UInt8) (failure : Option ReadError) :
    lines { bytes := first ++ lineFeed :: rest, failure } = .error .invalidText := by
  rw [lines_line clear, decodeLine_of_not_isText (invalid ∘ isText_dropReturn_iff.1)]
  rfl

/-- **A source that ends** delivers lines if its bytes are a text, and nothing otherwise. -/
theorem lines_whole (bytes : List UInt8) :
    IsText bytes ∧ (∃ delivered, lines { bytes } = .ok delivered) ∨
      ¬ IsText bytes ∧ lines { bytes } = .error .invalidText := by
  induction bytes using line_induction lineFeed with
  | unfinished bytes clear =>
    rw [lines_of_not_mem clear]
    by_cases valid : IsText bytes
    · obtain ⟨s, decoded⟩ := decodeLine_of_isText valid
      refine .inl ⟨valid, ?_⟩
      rw [decoded]
      cases bytes with
      | nil => exact ⟨[], rfl⟩
      | cons b bytes => exact ⟨[s], rfl⟩
    · have more : bytes ≠ [] := by
        rintro rfl
        exact valid (isText_iff.2 ⟨[], rfl⟩)
      refine .inr ⟨valid, ?_⟩
      rw [decodeLine_of_not_isText valid]
      simp only [List.isEmpty_iff, more, if_false]
      rfl
  | finished line bytes clear ih =>
    rw [isText_line_iff clear]
    by_cases valid : IsText line
    · obtain ⟨s, step⟩ := lines_line_of_isText clear valid bytes none
      rcases ih with ⟨later, delivered, ok⟩ | ⟨later, failed⟩
      · exact .inl ⟨⟨valid, later⟩, s :: delivered, by rw [step, ok]; rfl⟩
      · exact .inr ⟨fun both => later both.2, by rw [step, failed]; rfl⟩
    · exact .inr ⟨fun both => valid both.1, lines_line_of_not_isText clear valid bytes none⟩

/-- **A source that is cut off** delivers nothing. The error of a finished line is reported in front
of the error that cut the source off. -/
theorem lines_cut (bytes : List UInt8) (cause : ReadError) :
    Torn bytes ∧ lines { bytes, failure := some cause } = .error .invalidText ∨
      ¬ Torn bytes ∧ lines { bytes, failure := some cause } = .error cause := by
  induction bytes using line_induction lineFeed with
  | unfinished bytes clear =>
    rw [lines_of_not_mem clear]
    exact .inr ⟨not_torn clear, rfl⟩
  | finished line bytes clear ih =>
    rw [torn_line_iff clear]
    by_cases valid : IsText line
    · obtain ⟨s, step⟩ := lines_line_of_isText clear valid bytes (some cause)
      rcases ih with ⟨torn, failed⟩ | ⟨clean, failed⟩
      · exact .inl ⟨.inr torn, by rw [step, failed]; rfl⟩
      · exact .inr ⟨not_or.2 ⟨not_not.2 valid, clean⟩, by rw [step, failed]; rfl⟩
    · exact .inl ⟨.inl valid, lines_line_of_not_isText clear valid bytes (some cause)⟩

/-- The first byte of a character and a newline: whether the newline is delivered decides. -/
example (cause : ReadError) :
    lines (.cutAt { bytes := [195, 10] } 1 cause) = .error cause ∧
      lines (.cutAt { bytes := [195, 10] } 2 cause) = .error .invalidText := ⟨rfl, rfl⟩

end ByteSource

end Navigability.Text
