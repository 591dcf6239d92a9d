import Navigability.Proofs.Label.Table
import Navigability.Proofs.Text.Fields

/-!
# The text form of label tables

A table is written with one line for each row. The line lists the labels of the row between commas,
each of them at least once, in any order and with white space around them; fields of white space
only may stand between them. Whatever way is chosen, the table that is read is that of the rows, as
long as the labels can be told from what is written around them: they are not empty, they have no
comma and no newline in them, and no white space at their ends. Only such labels are ever read.

## Main definitions

* `LabelTable.Clean`: a label that can be written
* `LabelTable.Lists row line`: whether a line lists the labels of a row
* `LabelTable.Renders rows text`: whether a text writes the rows

## Main results

* `LabelTable.clean_of_mem_rowOfLine`: only clean labels are read
* `LabelTable.Lists.mem_rowOfLine_iff`: a line that lists clean labels is read as these labels
* `LabelTable.read_format`: what is read of texts that write rows, of any source, and of two texts
-/

namespace Navigability.LabelTable

open Text

/-! ## Labels on a line -/

/-- A label that can be told from the white space, commas and newlines around it. -/
structure Clean (label : String) : Prop where
  nonempty : label ≠ ""
  comma : ',' ∉ label.toList
  newline : '\n' ∉ label.toList
  first : ∀ c ∈ label.toList.head?, isWhiteSpace c = false
  last : ∀ c ∈ label.toList.getLast?, isWhiteSpace c = false

variable {label : String} {row : List String} {line front after field s : List Char}

theorem mem_rowOfLine_iff : label ∈ rowOfLine line ↔
    label ≠ "" ∧ ∃ field ∈ line.splitOn ',', trim field = label.toList := by
  simp only [rowOfLine, fields_eq_splitOn, List.mem_map, List.mem_filter]
  constructor
  · rintro ⟨_, ⟨⟨field, mem, rfl⟩, kept⟩, rfl⟩
    refine ⟨?_, field, mem, String.toList_ofList.symm⟩
    intro empty
    rw [String.ofList_eq_empty_iff] at empty
    simp [empty] at kept
  · rintro ⟨nonempty, field, mem, same⟩
    refine ⟨label.toList, ⟨⟨field, mem, same⟩, ?_⟩, String.ofList_toList⟩
    simpa using nonempty

/-- **Only clean labels are read** of a line. -/
theorem clean_of_mem_rowOfLine (clear : '\n' ∉ line) (mem : label ∈ rowOfLine line) :
    Clean label := by
  obtain ⟨nonempty, field, mem, same⟩ := mem_rowOfLine_iff.1 mem
  have inside : label.toList ⊆ field := same ▸ trim_subset field
  constructor
  · exact nonempty
  · exact fun comma => not_mem_of_mem_splitOn mem (inside comma)
  · exact fun newline => clear (subset_of_mem_splitOn mem (inside newline))
  · rw [← same]
    exact fun c first => not_isWhiteSpace_of_head_trim first
  · rw [← same]
    exact fun c last => not_isWhiteSpace_of_getLast_trim last

theorem comma_not_mem_of_blank (blank : Blank s) : ',' ∉ s := by
  intro mem
  have white := blank ',' mem
  revert white
  decide

/-- White space behind a line belongs to its last field, so it does not matter. -/
theorem rowOfLine_append_blank (front : List Char) (blank : Blank after) :
    rowOfLine (front ++ after) = rowOfLine front := by
  have trimmed : ((front ++ after).splitOn ',').map trim = (front.splitOn ',').map trim := by
    induction front using line_induction ',' with
    | unfinished front clear =>
      have clear' : ',' ∉ front ++ after := by
        rw [List.mem_append, not_or]
        exact ⟨clear, comma_not_mem_of_blank blank⟩
      rw [List.splitOn_eq_singleton clear, List.splitOn_eq_singleton clear', List.map_singleton,
        List.map_singleton, trim_append_blank _ blank]
    | finished first front clear ih =>
      rw [List.append_assoc, List.cons_append, List.splitOn_append_cons_self_of_not_mem clear,
        List.splitOn_append_cons_self_of_not_mem clear, List.map_cons, List.map_cons, ih]
  rw [rowOfLine, rowOfLine, fields_eq_splitOn, fields_eq_splitOn, trimmed]

theorem rowOfLine_withoutReturn (line : List Char) :
    rowOfLine (withoutReturn line) = rowOfLine line := by
  rcases eq_withoutReturn_or line with same | cut
  · rw [same]
  · have blank : Blank ['\r'] := by decide
    rw [← rowOfLine_append_blank _ blank, cut]

/-! ## Writing a row -/

/-- White space that does not end the line. -/
def Padding (s : List Char) : Prop := Blank s ∧ '\n' ∉ s

instance (s : List Char) : Decidable (Padding s) :=
  inferInstanceAs (Decidable (Blank s ∧ '\n' ∉ s))

/-- A label with white space around it. -/
def Padded (label : String) (field : List Char) : Prop :=
  ∃ before after, Padding before ∧ Padding after ∧ field = before ++ label.toList ++ after

/-- Whether a line lists the labels of a row, all of them, between commas. -/
def Lists (row : List String) (line : List Char) : Prop :=
  ∃ fields, line = [','].intercalate fields ∧
    (∀ field ∈ fields, Padding field ∨ ∃ label ∈ row, Padded label field) ∧
    ∀ label ∈ row, ∃ field ∈ fields, Padded label field

theorem Clean.trim_padded (clean : Clean label) (padded : Padded label field) :
    trim field = label.toList := by
  obtain ⟨before, after, front, back, rfl⟩ := padded
  rw [trim_append_blank _ back.1, trim_blank_append front.1, trim_eq_self clean.first clean.last]

theorem Clean.not_mem_padded (clean : Clean label) (padded : Padded label field) :
    ',' ∉ field ∧ '\n' ∉ field := by
  obtain ⟨before, after, front, back, rfl⟩ := padded
  simp only [List.mem_append, not_or]
  exact ⟨⟨⟨comma_not_mem_of_blank front.1, clean.comma⟩, comma_not_mem_of_blank back.1⟩,
    ⟨⟨front.2, clean.newline⟩, back.2⟩⟩

theorem mem_intercalate {sep c : Char} {fields : List (List Char)}
    (mem : c ∈ [sep].intercalate fields) : c = sep ∨ ∃ field ∈ fields, c ∈ field := by
  induction fields with
  | nil => cases mem
  | cons field fields ih =>
    rcases eq_or_ne fields [] with rfl | more
    · rw [List.intercalate_singleton] at mem
      exact .inr ⟨field, List.mem_singleton_self _, mem⟩
    · rw [List.intercalate_cons_of_ne_nil more, List.mem_append, List.mem_append,
        List.mem_singleton] at mem
      rcases mem with (here | here) | later
      · exact .inr ⟨field, List.mem_cons_self, here⟩
      · exact .inl here
      · rcases ih later with here | ⟨field, mem, here⟩
        · exact .inl here
        · exact .inr ⟨field, List.mem_cons_of_mem _ mem, here⟩

namespace Lists

variable (clean : ∀ label ∈ row, Clean label) (lists : Lists row line)

include clean lists

theorem newline_not_mem : '\n' ∉ line := by
  obtain ⟨fields, rfl, sound, -⟩ := lists
  intro mem
  rcases mem_intercalate mem with comma | ⟨field, mem, newline⟩
  · cases comma
  · rcases sound field mem with padding | ⟨label, mem, padded⟩
    · exact padding.2 newline
    · exact ((clean label mem).not_mem_padded padded).2 newline

/-- **A line that lists clean labels** is read as these labels. -/
theorem mem_rowOfLine_iff (label : String) : label ∈ rowOfLine line ↔ label ∈ row := by
  obtain ⟨fields, rfl, sound, complete⟩ := lists
  rw [LabelTable.mem_rowOfLine_iff]
  have apart : ∀ field ∈ fields, ',' ∉ field := by
    intro field mem
    rcases sound field mem with padding | ⟨label, mem, padded⟩
    · exact comma_not_mem_of_blank padding.1
    · exact ((clean label mem).not_mem_padded padded).1
  constructor
  · rintro ⟨nonempty, field, mem, same⟩
    have wasBlank {field : List Char} (blank : Blank field) (same : trim field = label.toList) :
        False := by
      rw [trim_of_blank blank] at same
      exact nonempty (String.toList_eq_nil_iff.1 same.symm)
    rcases eq_or_ne fields [] with rfl | some
    · rw [List.intercalate_nil, List.splitOn_nil, List.mem_singleton] at mem
      subst mem
      exact (wasBlank (by simp [Blank]) same).elim
    · rw [List.splitOn_intercalate ',' apart some] at mem
      rcases sound field mem with padding | ⟨label', mem, padded⟩
      · exact (wasBlank padding.1 same).elim
      · rw [(clean label' mem).trim_padded padded, String.toList_inj] at same
        exact same ▸ mem
  · intro mem
    obtain ⟨field, listed, padded⟩ := complete label mem
    refine ⟨(clean label mem).nonempty, field, ?_, (clean label mem).trim_padded padded⟩
    rwa [List.splitOn_intercalate ',' apart (List.ne_nil_of_mem listed)]

end Lists

/-! ## Writing a table -/

/-- What may end a line. -/
def lineEnds : List (List Char) := [['\n'], ['\r', '\n']]

/-- Whether a text has one line for each row, which lists the labels of the row. -/
inductive Renders : List (List String) → List Char → Prop
  | nil : Renders [] []
  | cons {row : List String} {rows : List (List String)} {line ending text : List Char} :
      Lists row line → ending ∈ lineEnds → Renders rows text →
        Renders (row :: rows) (line ++ ending ++ text)

/-- **The lines of a text that writes rows** are read as the labels of the rows. -/
theorem Renders.rowsOfLines {rows : List (List String)} {text : List Char}
    (clean : ∀ row ∈ rows, ∀ label ∈ row, Clean label) (renders : Renders rows text) :
    List.Forall₂ (fun row row' => ∀ label, label ∈ row ↔ label ∈ row')
      ((linesOf text).map rowOfLine) rows := by
  induction renders with
  | nil => exact .nil
  | @cons row rows line ending text lists ends _ ih =>
    obtain ⟨clean, later⟩ := List.forall_mem_cons.1 clean
    have clear := lists.newline_not_mem clean
    simp only [lineEnds, List.mem_cons, List.not_mem_nil, or_false] at ends
    rcases ends with rfl | rfl
    · rw [List.append_assoc, List.singleton_append, linesOf_line clear, List.map_cons,
        rowOfLine_withoutReturn]
      exact .cons (lists.mem_rowOfLine_iff clean) (ih later)
    · have clear' : '\n' ∉ line ++ ['\r'] := by simpa using clear
      rw [List.append_cons line, List.append_assoc, List.singleton_append, linesOf_line clear',
        List.map_cons, withoutReturn_concat]
      exact .cons (lists.mem_rowOfLine_iff clean) (ih later)

/-! ## Reading -/

theorem read_ofString (text : String) :
    read (.ofString text) = .ok (ofRows ((linesOf text.toList).map rowOfLine)) := by
  rw [read, ByteSource.lines_ofString]

theorem read_eq_ok {source : ByteSource} {table : LabelTable} (ok : read source = .ok table) :
    ∃ lines, source.lines = .ok lines ∧ ofRows (lines.map rowOfLine) = table := by
  rw [read] at ok
  split at ok
  · next lines delivered => exact ⟨lines, delivered, Except.ok.inj ok⟩
  · cases ok

/-- **The text form of label tables**: a text that writes rows of clean labels is read as the table
of the rows, every label of a table that is read is clean, and behind finished lines the points of
another text are added with their labels. -/
theorem read_format :
    (∀ rows (text : String), (∀ row ∈ rows, ∀ label ∈ row, Clean label) →
      Renders rows text.toList →
        ∃ table, read (.ofString text) = .ok table ∧ table.Same (ofRows rows)) ∧
    (∀ source table, read source = .ok table → ∀ label, table.Mentions label → Clean label) ∧
    ∀ s t : String, (s = "" ∨ s.toList.getLast? = some '\n') →
      ∃ first second table, read (.ofString s) = .ok first ∧ read (.ofString t) = .ok second ∧
        read (.ofString (s ++ t)) = .ok table ∧ table.sets = first.sets ++ second.sets ∧
        ∀ label, table.count label = first.count label + second.count label := by
  refine ⟨?_, ?_, ?_⟩
  · intro rows text clean renders
    exact ⟨_, read_ofString text, ofRows_same (renders.rowsOfLines clean)⟩
  · intro source table ok label mentioned
    obtain ⟨lines, delivered, rfl⟩ := read_eq_ok ok
    obtain ⟨row, mem, labelMem⟩ := mentions_ofRows_iff.1 mentioned
    obtain ⟨line, lineMem, rfl⟩ := List.mem_map.1 mem
    exact clean_of_mem_rowOfLine (ByteSource.not_mem_of_lines delivered lineMem) labelMem
  · intro s t whole
    have lines : linesOf (s ++ t).toList = linesOf s.toList ++ linesOf t.toList := by
      rw [String.toList_append]
      exact linesOf_append (whole.imp_left String.toList_eq_nil_iff.2) t.toList
    refine ⟨_, _, _, read_ofString s, read_ofString t, read_ofString (s ++ t), ?_, ?_⟩
    · rw [lines, List.map_append, sets_ofRows_append]
    · intro label
      rw [lines, List.map_append, count_ofRows_append]

/-- Three rows, and a text of three lines for them. -/
def looseRows : List (List String) := [["a", "b"], [], ["c", "a"]]

def looseText : String := " b,a\t, ,b\r\n \r\na,c\n"

theorem read_format_looseText :
    (∃ table, read (.ofString looseText) = .ok table ∧ table.Same (ofRows looseRows) ∧
      ∀ label, table.Mentions label → Clean label) ∧
    ∃ first second table, read (.ofString looseText) = .ok first ∧
      read (.ofString "b") = .ok second ∧ read (.ofString (looseText ++ "b")) = .ok table ∧
      table.sets = first.sets ++ second.sets ∧
      ∀ label, table.count label = first.count label + second.count label := by
  have single (c : Char) (comma : c ≠ ',') (newline : c ≠ '\n') (dark : isWhiteSpace c = false) :
      Clean (String.ofList [c]) := by
    constructor <;> simp [comma.symm, newline.symm, dark]
  have clean : ∀ row ∈ looseRows, ∀ label ∈ row, Clean label := by
    have a : Clean "a" := single 'a' (by decide) (by decide) (by decide)
    have b : Clean "b" := single 'b' (by decide) (by decide) (by decide)
    have c : Clean "c" := single 'c' (by decide) (by decide) (by decide)
    simp only [looseRows, List.forall_mem_cons]
    exact ⟨⟨a, b, List.forall_mem_nil _⟩, List.forall_mem_nil _, ⟨c, a, List.forall_mem_nil _⟩,
      List.forall_mem_nil _⟩
  have none : Padding [] := by decide
  have space : Padding " ".toList := by decide
  have first : Lists ["a", "b"] " b,a\t, ,b".toList := by
    have behind : Padded "b" " b".toList := ⟨" ".toList, [], space, none, rfl⟩
    have before : Padded "a" "a\t".toList := ⟨[], "\t".toList, none, by decide, rfl⟩
    have again : Padded "b" "b".toList := ⟨[], [], none, none, rfl⟩
    refine ⟨[" b".toList, "a\t".toList, " ".toList, "b".toList], rfl, ?_, ?_⟩
    · simp only [List.forall_mem_cons]
      exact ⟨.inr ⟨"b", by simp, behind⟩, .inr ⟨"a", by simp, before⟩, .inl space,
        .inr ⟨"b", by simp, again⟩, List.forall_mem_nil _⟩
    · simp only [List.forall_mem_cons]
      exact ⟨⟨_, by simp, before⟩, ⟨_, by simp, behind⟩, List.forall_mem_nil _⟩
  have second : Lists [] " ".toList := by
    refine ⟨[" ".toList], rfl, ?_, List.forall_mem_nil _⟩
    simp only [List.forall_mem_singleton]
    exact .inl space
  have third : Lists ["c", "a"] "a,c".toList := by
    have a : Padded "a" "a".toList := ⟨[], [], none, none, rfl⟩
    have c : Padded "c" "c".toList := ⟨[], [], none, none, rfl⟩
    refine ⟨["a".toList, "c".toList], rfl, ?_, ?_⟩
    · simp only [List.forall_mem_cons]
      exact ⟨.inr ⟨"a", by simp, a⟩, .inr ⟨"c", by simp, c⟩, List.forall_mem_nil _⟩
    · simp only [List.forall_mem_cons]
      exact ⟨⟨_, by simp, c⟩, ⟨_, by simp, a⟩, List.forall_mem_nil _⟩
  have renders : Renders looseRows looseText.toList := by
    have shape : looseText.toList = " b,a\t, ,b".toList ++ ['\r', '\n'] ++
        (" ".toList ++ ['\r', '\n'] ++ ("a,c".toList ++ ['\n'] ++ [])) := rfl
    rw [shape]
    exact .cons first (by simp [lineEnds])
      (.cons second (by simp [lineEnds]) (.cons third (by simp [lineEnds]) .nil))
  obtain ⟨table, ok, same⟩ := read_format.1 looseRows looseText clean renders
  refine ⟨⟨table, ok, same, read_format.2.1 _ table ok⟩, ?_⟩
  exact read_format.2.2 looseText "b" (.inr rfl)

end Navigability.LabelTable
