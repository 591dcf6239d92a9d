import Navigability.Label.Directory
import Navigability.Label.Table
import Navigability.Proofs.Text.Delivery

/-!
# Reading labels

Label tables and label directories are both read from the lines that a source delivers, and once the
lines are there nothing can fail. So the bytes alone decide whether reading succeeds: a source that
ends is read if its bytes are a text, whatever the text says. A source that is cut off is never
read, and the failure tells of the first thing that was wrong: a finished line that is no text, or
the cut itself.

## Main definitions

* `DecidedByBytes read`: how the outcome of reading depends on the bytes

## Main results

* `DecidedByBytes.of_lines`: what is read from lines is decided by the bytes
* `reading_decided`: reading label tables and label directories
-/

namespace Navigability

open Text

/-- How the outcome of reading depends on the bytes of a source, when the source ends behind them
and when its connection is reset after the first `n` of them. -/
structure DecidedByBytes {α : Type} (read : ByteSource → Except Failure α) : Prop where
  whole_ok_iff : ∀ bytes, (∃ value, read { bytes } = .ok value) ↔ IsText bytes
  whole_error_iff : ∀ bytes,
    read { bytes } = .error (.unreadable .invalidText) ↔ ¬ IsText bytes
  cut_invalid_iff : ∀ bytes n reason,
    read (.cutAt { bytes } n ⟨.connectionReset, reason⟩) = .error (.unreadable .invalidText) ↔
      Torn (bytes.take n)
  cut_reset_iff : ∀ bytes n reason,
    read (.cutAt { bytes } n ⟨.connectionReset, reason⟩) =
      .error (.unreadable ⟨.connectionReset, reason⟩) ↔ ¬ Torn (bytes.take n)

/-- Of two outcomes that exclude each other, each is the one of its case. -/
theorem outcome_iff {case first second : Prop} (either : case ∧ first ∨ ¬ case ∧ second)
    (apart : first → ¬ second) : (first ↔ case) ∧ (second ↔ ¬ case) := by
  rcases either with ⟨holds, one⟩ | ⟨fails, other⟩
  · exact ⟨iff_of_true one holds, iff_of_false (apart one) (not_not.2 holds)⟩
  · exact ⟨iff_of_false (fun one => apart one other) fails, iff_of_true other fails⟩

/-- **What is read from lines** is decided by the bytes, if it can be made of any lines. -/
theorem DecidedByBytes.of_lines {α : Type} {read : ByteSource → Except Failure α}
    (make : List (List Char) → α)
    (shape : ∀ source, read source = match source.lines with
      | .ok lines => .ok (make lines)
      | .error cause => .error (.unreadable cause)) : DecidedByBytes read := by
  have whole (bytes : List UInt8) : ((∃ value, read { bytes } = .ok value) ↔ IsText bytes) ∧
      (read { bytes } = .error (.unreadable .invalidText) ↔ ¬ IsText bytes) := by
    rw [shape]
    refine outcome_iff ((ByteSource.lines_whole bytes).imp ?_ ?_) ?_
    · rintro ⟨valid, delivered, ok⟩
      exact ⟨valid, make delivered, by rw [ok]⟩
    · rintro ⟨invalid, failed⟩
      exact ⟨invalid, by rw [failed]⟩
    · rintro ⟨value, ok⟩ failed
      cases ok.symm.trans failed
  have cut (bytes : List UInt8) (n : Nat) (reason : String) :
      (read (.cutAt { bytes } n ⟨.connectionReset, reason⟩) = .error (.unreadable .invalidText) ↔
        Torn (bytes.take n)) ∧
      (read (.cutAt { bytes } n ⟨.connectionReset, reason⟩) =
        .error (.unreadable ⟨.connectionReset, reason⟩) ↔ ¬ Torn (bytes.take n)) := by
    rw [shape, ByteSource.cutAt]
    have ends := ByteSource.lines_cut (bytes.take n) ⟨.connectionReset, reason⟩
    refine outcome_iff (ends.imp ?_ ?_) ?_
    · rintro ⟨torn, failed⟩
      exact ⟨torn, by rw [failed]⟩
    · rintro ⟨clean, failed⟩
      exact ⟨clean, by rw [failed]⟩
    · intro invalid reset
      cases invalid.symm.trans reset
  exact ⟨fun bytes => (whole bytes).1, fun bytes => (whole bytes).2,
    fun bytes n reason => (cut bytes n reason).1, fun bytes n reason => (cut bytes n reason).2⟩

/-- **Reading labels** is decided by the bytes, for tables and for directories. -/
theorem reading_decided : DecidedByBytes LabelTable.read ∧ DecidedByBytes LabelDirectory.read :=
  ⟨.of_lines _ fun _ => rfl, .of_lines _ fun _ => rfl⟩

end Navigability
