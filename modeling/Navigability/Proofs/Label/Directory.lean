import Mathlib.Data.Finset.Card
import Navigability.Label.Directory
import Navigability.Proofs.Text.Fields

/-!
# Label directories and their bindings

A directory is changed by binding an id, and by loading a text in place of all bindings there are. A
text that cannot be read leaves the directory as it is. Whatever was done to a directory, what it
answers depends on the bindings since the last load that succeeded, and among them on the last one
of each id. A bound id counts, whether its label is empty or not.

A line of a text binds an id if it has a tab. Carriage returns at its end are dropped before the
line is split, and columns behind the label are ignored; so neither of them can be told from the
directory, and lines without a tab may stand anywhere.

## Main definitions

* `LabelDirectory.Change`, `LabelDirectory.changed`: what is done to a directory
* `LabelDirectory.bindings`: the bindings since the last load that succeeded
* `LabelDirectory.Holds`: what a directory answers that holds given bindings
* `LabelDirectory.Binds`: the id and the label on a line
* `LabelDirectory.Renders`: whether a text writes given bindings

## Main results

* `LabelDirectory.Holds.apply`, `LabelDirectory.changed_holds`: one change, and any changes
* `LabelDirectory.binding?_eq_some_iff`, `LabelDirectory.binds_iff`: the lines that bind an id
* `LabelDirectory.Renders.bindings_eq`: what is read of a text that writes bindings
* `LabelDirectory.bindings_latest`: the three of them together
-/

namespace Navigability.LabelDirectory

open Text

/-! ## Changes -/

/-- A change of a directory. -/
inductive Change where
  /-- Replace the bindings by those of a source, if it can be read. -/
  | load (source : ByteSource)
  /-- Bind an id to a label. -/
  | insert (id label : String)

/-- The directory after a change. -/
def Change.apply (directory : LabelDirectory) : Change → LabelDirectory
  | load source =>
    match reload source directory with
    | .ok _ loaded => loaded
    | .error _ kept => kept
  | insert id label => directory.insert id label

/-- The bindings that count after a change, in the order in which they were made. -/
def Change.bind (bound : List (String × String)) : Change → List (String × String)
  | load source =>
    match source.lines with
    | .ok lines => lines.filterMap binding?
    | .error _ => bound
  | insert id label => bound ++ [(id, label)]

/-- The empty directory after changes in a row. -/
def changed (changes : List Change) : LabelDirectory := changes.foldl Change.apply empty

/-- The bindings that were made in a row of changes since the last load that succeeded. -/
def bindings (changes : List Change) : List (String × String) := changes.foldl Change.bind []

/-- The label that an id was bound to last. -/
def latest (bound : List (String × String)) (id : String) : Option String :=
  bound.reverse.lookup id

/-- What a directory answers that holds given bindings, the last of an id counting. -/
structure Holds (directory : LabelDirectory) (bound : List (String × String)) : Prop where
  entries : ∀ id, directory.entries[id]? = latest bound id
  resolve : ∀ id, directory.resolve id = (latest bound id).getD ""
  size : directory.size = (bound.map Prod.fst).toFinset.card
  isEmpty : directory.isEmpty ↔ directory.size = 0

variable {directory : LabelDirectory} {bound : List (String × String)}

theorem latest_concat (bound : List (String × String)) (id label other : String) :
    latest (bound ++ [(id, label)]) other =
      if id = other then some label else latest bound other := by
  rw [latest, List.reverse_concat, List.lookup_cons, ← latest]
  by_cases same : id = other
  · simp [same]
  · simp [same, beq_false_of_ne (Ne.symm same)]

theorem latest_ne_none_iff {id : String} :
    latest bound id ≠ none ↔ id ∈ bound.map Prod.fst := by
  rw [latest, Ne, List.lookup_eq_none_iff]
  simp

theorem isEmpty_iff : directory.isEmpty ↔ directory.size = 0 := by
  simp [isEmpty, size, Std.TreeMap.isEmpty_eq_size_eq_zero]

theorem holds_empty : empty.Holds [] where
  entries _ := Std.TreeMap.getElem?_emptyc
  resolve := resolve_empty
  size := rfl
  isEmpty := isEmpty_iff

/-- **Binding an id** makes its label the last one, and counts the id if it was not bound before. -/
theorem Holds.insert (holds : directory.Holds bound) (id label : String) :
    (directory.insert id label).Holds (bound ++ [(id, label)]) where
  entries other := by
    rw [latest_concat, ← holds.entries]
    simp [LabelDirectory.insert, Std.TreeMap.getElem?_insert]
  resolve other := by
    rw [resolve_insert, latest_concat, holds.resolve]
    split <;> rfl
  size := by
    have known : directory.entries.contains id ↔ id ∈ (bound.map Prod.fst).toFinset := by
      rw [List.mem_toFinset, ← latest_ne_none_iff, ← holds.entries, Std.TreeMap.contains_iff_mem,
        Std.TreeMap.mem_iff_isSome_getElem?, Option.isSome_iff_ne_none]
    have ids : ((bound ++ [(id, label)]).map Prod.fst).toFinset =
        Insert.insert id (bound.map Prod.fst).toFinset := by
      ext other
      simp
    rw [ids, Finset.card_insert_eq_ite, ← holds.size, LabelDirectory.size, LabelDirectory.size,
      LabelDirectory.insert, Std.TreeMap.size_insert]
    simp only [known]
  isEmpty := isEmpty_iff

theorem ofBindings_holds (bound : List (String × String)) : (ofBindings bound).Holds bound := by
  induction bound using List.reverseRecOn with
  | nil => exact holds_empty
  | append_singleton bound binding ih =>
    rw [ofBindings, List.foldl_concat, ← ofBindings]
    exact ih.insert binding.1 binding.2

/-- **A change** of a directory is one of the bindings it holds. -/
theorem Holds.apply (holds : directory.Holds bound) (change : Change) :
    (change.apply directory).Holds (change.bind bound) := by
  cases change with
  | load source =>
    rw [Change.apply, Change.bind, reload, read]
    cases source.lines with
    | ok lines => exact ofBindings_holds (lines.filterMap binding?)
    | error cause => exact holds
  | insert id label => exact holds.insert id label

/-- **After any changes** a directory holds the bindings since the last load that succeeded. -/
theorem changed_holds (changes : List Change) : (changed changes).Holds (bindings changes) := by
  induction changes using List.reverseRecOn with
  | nil => exact holds_empty
  | append_singleton changes change ih =>
    rw [changed, bindings, List.foldl_concat, List.foldl_concat]
    exact ih.apply change

/-! ## The binding on a line -/

/-- Columns behind a label: none, or a tab and what follows it. -/
def Columns (columns : List Char) : Prop := columns = [] ∨ columns.head? = some '\t'

/-- Whether a line binds an id to a label: without the carriage returns at its end, the line has the
id in front of its first tab, and the label behind it, up to another tab or the end. -/
def Binds (line id label : List Char) : Prop :=
  ∃ columns, line.rdropWhile (· == '\r') = id ++ '\t' :: (label ++ columns) ∧
    '\t' ∉ id ∧ '\t' ∉ label ∧ Columns columns

variable {line id label columns s : List Char}

theorem dropReturns_eq (line : List Char) : dropReturns line = line.rdropWhile (· == '\r') := rfl

theorem dropReturns_append_returns (s : List Char) (returns : Nat) :
    dropReturns (s ++ List.replicate returns '\r') = dropReturns s := by
  rw [dropReturns, List.reverse_append, List.dropWhile_append_of_pos, dropReturns]
  simp

theorem dropReturns_eq_self (last : s.getLast? ≠ some '\r') : dropReturns s = s := by
  rcases List.eq_nil_or_concat s with rfl | ⟨s, c, rfl⟩
  · rfl
  · have kept : c ≠ '\r' := by simpa using last
    simp [dropReturns, kept]

/-- No tab is dropped, nor anything in front of one. -/
theorem dropReturns_append_tab (s t : List Char) :
    dropReturns (s ++ '\t' :: t) = s ++ '\t' :: dropReturns t := by
  rw [dropReturns, List.reverse_append, List.reverse_cons, List.append_assoc, List.dropWhile_append]
  split
  · next all =>
    rw [dropReturns, List.isEmpty_iff.1 all]
    simp
  · simp [dropReturns]

theorem binding?_withoutReturn (line : List Char) :
    binding? (withoutReturn line) = binding? line := by
  rcases eq_withoutReturn_or line with same | cut
  · rw [same]
  · have dropped := dropReturns_append_returns (withoutReturn line) 1
    rw [List.replicate_one, cut] at dropped
    rw [binding?, ← dropped, binding?]

/-- **The lines that bind an id** are those that have a tab when the carriage returns at their end
are dropped. -/
theorem binds_iff : (∃ id label, Binds line id label) ↔ '\t' ∈ line.rdropWhile (· == '\r') := by
  constructor
  · rintro ⟨id, label, columns, split, -⟩
    simp [split]
  · intro mem
    obtain ⟨id, rest, split, clear⟩ := List.eq_append_cons_of_mem mem
    by_cases more : '\t' ∈ rest
    · obtain ⟨label, columns, rfl, clear'⟩ := List.eq_append_cons_of_mem more
      exact ⟨id, label, '\t' :: columns, split, clear, clear', .inr rfl⟩
    · exact ⟨id, rest, [], by rw [split, List.append_nil], clear, more, .inl rfl⟩

theorem Binds.binding?_eq (binds : Binds line id label) :
    binding? line = some (String.ofList id, String.ofList label) := by
  obtain ⟨columns, split, clear, clear', behind⟩ := binds
  rw [binding?, dropReturns_eq, split, fields_eq_splitOn,
    List.splitOn_append_cons_self_of_not_mem clear]
  rcases behind with rfl | tab
  · rw [List.append_nil, List.splitOn_eq_singleton clear']
  · obtain ⟨columns, rfl⟩ := List.head?_eq_some_iff.1 tab
    rw [List.splitOn_append_cons_self_of_not_mem clear']

theorem binding?_eq_none (clear : '\t' ∉ line.rdropWhile (· == '\r')) : binding? line = none := by
  rw [binding?, dropReturns_eq, fields_of_not_mem clear]

/-- **What is bound on a line** is the id in front of its first tab, to the label behind it. -/
theorem binding?_eq_some_iff {id label : String} :
    binding? line = some (id, label) ↔ Binds line id.toList label.toList := by
  constructor
  · intro found
    have tab : '\t' ∈ line.rdropWhile (· == '\r') := by
      by_contra clear
      cases (binding?_eq_none clear).symm.trans found
    obtain ⟨id', label', binds⟩ := binds_iff.2 tab
    obtain ⟨rfl, rfl⟩ := Prod.mk.inj (Option.some.inj (binds.binding?_eq.symm.trans found))
    simpa using binds
  · intro binds
    simpa using binds.binding?_eq

/-! ## Writing bindings -/

/-- A binding that can be written on a line. -/
structure Plain (binding : String × String) : Prop where
  id : '\t' ∉ binding.1.toList ∧ '\n' ∉ binding.1.toList
  label : '\t' ∉ binding.2.toList ∧ '\n' ∉ binding.2.toList
  last : binding.2.toList.getLast? ≠ some '\r'

/-- A line with an id, a tab and a label, perhaps more columns, and any number of carriage returns
at its end. -/
def writtenLine (binding : String × String) (columns : List Char) (returns : Nat) : List Char :=
  binding.1.toList ++ '\t' :: (binding.2.toList ++ columns) ++ List.replicate returns '\r'

/-- Whether a text has a line for each binding, in their order, and otherwise lines without a tab,
the last of which may be unfinished. -/
inductive Renders : List (String × String) → List Char → Prop
  | rest {rest : List Char} : '\t' ∉ rest → '\n' ∉ rest → Renders [] rest
  | skip {bound : List (String × String)} {line text : List Char} :
      '\t' ∉ line → '\n' ∉ line → Renders bound text → Renders bound (line ++ '\n' :: text)
  | bind {bound : List (String × String)} {columns text : List Char}
      (binding : String × String) (returns : Nat) : Columns columns → '\n' ∉ columns →
        Renders bound text →
          Renders (binding :: bound) (writtenLine binding columns returns ++ '\n' :: text)

theorem binds_writtenLine {binding : String × String} (plain : Plain binding)
    (behind : Columns columns) (returns : Nat) :
    Binds (writtenLine binding columns returns) binding.1.toList binding.2.toList := by
  refine ⟨dropReturns columns, ?_, plain.id.1, plain.label.1, ?_⟩
  · rw [← dropReturns_eq, writtenLine, dropReturns_append_returns, dropReturns_append_tab]
    rcases behind with rfl | tab
    · rw [List.append_nil, dropReturns_eq_self plain.last]
      simp [dropReturns]
    · obtain ⟨columns, rfl⟩ := List.head?_eq_some_iff.1 tab
      rw [dropReturns_append_tab, ← List.nil_append ('\t' :: columns), dropReturns_append_tab]
      rfl
  · rcases behind with rfl | tab
    · exact .inl rfl
    · obtain ⟨columns, rfl⟩ := List.head?_eq_some_iff.1 tab
      rw [← List.nil_append ('\t' :: columns), dropReturns_append_tab]
      exact .inr rfl

theorem newline_not_mem_writtenLine {binding : String × String} (plain : Plain binding)
    (clear : '\n' ∉ columns) (returns : Nat) : '\n' ∉ writtenLine binding columns returns := by
  simp [writtenLine, plain.id.2, plain.label.2, clear]

theorem binding?_of_not_mem (clear : '\t' ∉ line) : binding? line = none :=
  binding?_eq_none fun mem => clear ((List.rdropWhile_prefix _ _).subset mem)

/-- **A text that writes bindings** is read as these bindings. -/
theorem Renders.bindings_eq {bound : List (String × String)} {text : List Char}
    (plain : ∀ binding ∈ bound, Plain binding) (renders : Renders bound text) :
    (linesOf text).filterMap binding? = bound := by
  induction renders with
  | @rest rest tab newline =>
    rw [linesOf_of_not_mem newline]
    split
    · rfl
    · rw [List.filterMap_cons_none (binding?_of_not_mem tab), List.filterMap_nil]
  | skip tab newline _ ih =>
    rw [linesOf_line newline, List.filterMap_cons_none, ih plain]
    rw [binding?_withoutReturn, binding?_of_not_mem tab]
  | bind binding returns behind newline _ ih =>
    obtain ⟨here, later⟩ := List.forall_mem_cons.1 plain
    rw [linesOf_line (newline_not_mem_writtenLine here newline returns),
      List.filterMap_cons_some, ih later]
    rw [binding?_withoutReturn, binding?_eq_some_iff]
    exact binds_writtenLine here behind returns

/-! ## Reading -/

theorem read_ofString (text : String) :
    read (.ofString text) = .ok (ofBindings ((linesOf text.toList).filterMap binding?)) := by
  rw [read, ByteSource.lines_ofString]

/-- **A directory answers by the latest bindings.** After any loads and insertions it holds the
bindings since the last load that succeeded. What a load binds stands on the lines that have a tab
when the carriage returns at their end are dropped. So a text that writes bindings, in any of the
ways there are, is read as a directory that holds them. -/
theorem bindings_latest :
    (∀ changes, (changed changes).Holds (bindings changes)) ∧
    (∀ line id label, binding? line = some (id, label) ↔ Binds line id.toList label.toList) ∧
    (∀ line, (∃ id label, Binds line id label) ↔ '\t' ∈ line.rdropWhile (· == '\r')) ∧
    ∀ bound (text : String), (∀ binding ∈ bound, Plain binding) → Renders bound text.toList →
      ∃ directory, read (.ofString text) = .ok directory ∧ directory.Holds bound := by
  refine ⟨changed_holds, fun _ _ _ => binding?_eq_some_iff, fun _ => binds_iff, ?_⟩
  intro bound text plain renders
  refine ⟨_, read_ofString text, ?_⟩
  rw [renders.bindings_eq plain]
  exact ofBindings_holds bound

/-- Three bindings, two of them of one id, and a text for them. -/
def petBindings : List (String × String) := [("1", "cat"), ("7", "dog"), ("1", "")]

def petText : String := "1\tcat\nno binding\r\n7\tdog\tmore\r\r\n1\t\r\n"

theorem latest_petText :
    (∃ directory, read (.ofString petText) = .ok directory ∧ directory.resolve "1" = "" ∧
      directory.resolve "7" = "dog" ∧ directory.resolve "more" = "" ∧ directory.size = 2) ∧
    (changed [.insert "7" "cow", .load { bytes := [255, 10] }]).resolve "7" = "cow" := by
  have plain : ∀ binding ∈ petBindings, Plain binding := by
    simp only [petBindings, List.forall_mem_cons]
    refine ⟨?_, ?_, ?_, List.forall_mem_nil _⟩ <;> constructor <;> decide
  have shape : petText.toList = writtenLine ("1", "cat") [] 0 ++ '\n' ::
      ("no binding\r".toList ++ '\n' :: (writtenLine ("7", "dog") "\tmore".toList 2 ++ '\n' ::
        (writtenLine ("1", "") [] 1 ++ '\n' :: []))) := rfl
  have renders : Renders petBindings petText.toList := by
    rw [shape]
    exact .bind _ 0 (.inl rfl) (by decide) (.skip (by decide) (by decide)
      (.bind _ 2 (.inr rfl) (by decide) (.bind _ 1 (.inl rfl) (by decide)
        (.rest (by decide) (by decide)))))
  obtain ⟨changes, -, -, written⟩ := bindings_latest
  obtain ⟨directory, ok, holds⟩ := written petBindings petText plain renders
  refine ⟨⟨directory, ok, holds.resolve "1", holds.resolve "7", holds.resolve "more",
    holds.size⟩, ?_⟩
  have kept : bindings [.insert "7" "cow", .load { bytes := [255, 10] }] = [("7", "cow")] := by
    decide +kernel
  have answer := (changes [.insert "7" "cow", .load { bytes := [255, 10] }]).resolve "7"
  rw [kept] at answer
  exact answer

end Navigability.LabelDirectory
