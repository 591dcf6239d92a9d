import Navigability.Json.Codec
import Navigability.Proofs.Json.Bindings

/-!
# Shapes of stored values

The shape of a type tells which data values stand for a value of the type and what is wrong with the
others. Shapes are put together as the types are: a list is an array of forms of its items, and a
record is an object or an array of forms of its fields, whatever form is chosen for each of them. A
stored type agrees with a shape when its values can be read from their forms, and from nothing else.

## Main definitions

* `Shape`: the values of a type that can be stored, their forms, and the flawed data values
* `Shape.number`, `Shape.text`, `Shape.list`, `Shape.record`: how shapes are put together
* `Shape.Exact`: whether a type is written and read in its shape

## Main results

* `Shape.number_exact`, `Shape.text_exact`, `Shape.list_exact`: numbers, texts and lists
* `Shape.record_exact`: records
-/

namespace Navigability.Json

open Value

/-- Which data values stand for the values of a type. -/
structure Shape (α : Type) where
  /-- Whether all numbers in a value can be stored. -/
  Fits : α → Prop
  /-- Whether a data value is a form of a value. -/
  Form : α → Value → Prop
  /-- Whether something is wrong with a data value. -/
  Flaw : Value → Prop

namespace Shape

variable {α β : Type}

/-- Numbers are stored as integers. -/
def number : Shape Nat where
  Fits n := n < numberLimit
  Form n v := v = .integer n
  Flaw v := (∀ n, v ≠ .integer n) ∨ ∃ n, v = .integer n ∧ (n < 0 ∨ numberLimit ≤ n)

/-- Texts are stored as strings. -/
def text : Shape String where
  Fits _ := True
  Form s v := v = .string s
  Flaw v := ∀ s, v ≠ .string s

/-- Lists are stored as arrays. -/
def list (shape : Shape α) : Shape (List α) where
  Fits items := ∀ a ∈ items, shape.Fits a
  Form items v := ∃ written, v = .array written ∧ List.Forall₂ shape.Form items written
  Flaw v := (∀ written, v ≠ .array written) ∨
    ∃ written, v = .array written ∧ ∃ item ∈ written, shape.Flaw item

/-- A field of a record: its name, what is written there, and the shape of it. -/
structure Field (α : Type) where
  name : String
  write : α → Value
  shape : Shape α

/-- The field for a part of a record. -/
def Field.of [Stored β] (name : String) (part : α → β) (shape : Shape β) : Field α where
  name := name
  write x := encode (part x)
  shape := { Fits x := shape.Fits (part x), Form x := shape.Form (part x), Flaw := shape.Flaw }

/-- What is wrong with a data value that is no record: it is neither an array nor an object, it is
an array of another length, or a field is missing or flawed. -/
inductive RecordFlaw (fields : List (Field α)) : Value → Prop
  | kind {v : Value} : (∀ items, v ≠ .array items) → (∀ bindings, v ≠ .object bindings) →
      RecordFlaw fields v
  | length {items : List Value} : items.length ≠ fields.length → RecordFlaw fields (.array items)
  | item {items : List Value} {field : Field α} {value : Value} :
      (field, value) ∈ fields.zip items → field.shape.Flaw value → RecordFlaw fields (.array items)
  | missing {bindings : List (String × Value)} {field : Field α} : field ∈ fields →
      (∀ value, (field.name, value) ∉ bindings) → RecordFlaw fields (.object bindings)
  | bound {bindings : List (String × Value)} {field : Field α} {value : Value} : field ∈ fields →
      (field.name, value) ∈ counting bindings → field.shape.Flaw value →
        RecordFlaw fields (.object bindings)

/-- Records are stored as objects or as arrays. -/
def record (fields : List (Field α)) : Shape α where
  Fits x := ∀ field ∈ fields, field.shape.Fits x
  Form x v := ∃ values, Laid (fields.map Field.name) values v ∧
    List.Forall₂ (fun field value => field.shape.Form x value) fields values
  Flaw := RecordFlaw fields

/-- Whether a type is written and read in its shape: what is written is read back, the data values
that are read as a value are its forms, and those that are not read are flawed. -/
structure Exact [Stored α] (shape : Shape α) : Prop where
  decode?_encode : ∀ x, shape.Fits x → decode? (encode x) = some x
  decode?_eq_some_iff : ∀ v x, decode? v = some x ↔ shape.Fits x ∧ shape.Form x v
  decode?_eq_none_iff : ∀ v, (decode? v : Option α) = none ↔ shape.Flaw v

/-- What is written is one of the forms. -/
theorem Exact.form_encode [Stored α] {shape : Shape α} (exact : shape.Exact) {x : α}
    (fits : shape.Fits x) : shape.Form x (encode x) :=
  ((exact.decode?_eq_some_iff _ _).1 (exact.decode?_encode x fits)).2

theorem number_exact : number.Exact where
  decode?_encode x fits := decode?_encode_nat fits
  decode?_eq_some_iff v x := by
    cases v with
    | integer n =>
      simp only [decode?, number?, number, Value.integer.injEq]
      split
      · next within =>
        rw [Option.some_inj]
        omega
      · next outside =>
        refine iff_of_false (by simp) ?_
        omega
    | _ => simp [decode?, number?, number]
  decode?_eq_none_iff v := by
    cases v with
    | integer n =>
      simp [decode?, number?, number]
      omega
    | _ => simp [decode?, number?, number]

theorem text_exact : text.Exact where
  decode?_encode s _ := decode?_encode_string s
  decode?_eq_some_iff v s := by
    cases v <;> simp [decode?, text?, text]
  decode?_eq_none_iff v := by
    cases v <;> simp [decode?, text?, text]

theorem list_exact [Stored α] {shape : Shape α} (exact : shape.Exact) : (list shape).Exact where
  decode?_encode items fits :=
    decode?_encode_list fun a mem => exact.decode?_encode a (fits a mem)
  decode?_eq_some_iff v items := by
    cases v with
    | array written =>
      simp only [decode?, list?, list, Value.array.injEq, exists_eq_left', mapM_eq_some_iff,
        exact.decode?_eq_some_iff, ← List.forall₂_and_left]
      exact ⟨List.Forall₂.flip, List.Forall₂.flip⟩
    | _ => simp [decode?, list?, list]
  decode?_eq_none_iff v := by
    cases v with
    | array written =>
      simp [decode?, list?, list, mapM_eq_none_iff, exact.decode?_eq_none_iff]
    | _ => simp [decode?, list?, list]

/-! ## Fields of a record -/

variable {fields : List (Field α)}

theorem name_mem_zip {field : Field α} {values : List Value} {value : Value}
    (mem : (field, value) ∈ fields.zip values) :
    (field.name, value) ∈ (fields.map Field.name).zip values := by
  rw [List.zip_map_left]
  exact List.mem_map.2 ⟨(field, value), mem, rfl⟩

/-- The value of a field in an object, if the object is a record. -/
theorem mem_zip_of_laid {bindings : List (String × Value)} {values : List Value}
    {field : Field α} {value : Value} (length : values.length = fields.length)
    (laid : Laid (fields.map Field.name) values (.object bindings)) (mem : field ∈ fields)
    (bound : (field.name, value) ∈ counting bindings) : (field, value) ∈ fields.zip values := by
  rw [← List.map_fst_zip (Nat.le_of_eq length.symm)] at mem
  obtain ⟨⟨field, value'⟩, paired, rfl⟩ := List.mem_map.1 mem
  have bound' := laid.mem_counting (name_mem_zip paired)
  have same := (mem_counting_iff.1 bound).symm.trans (mem_counting_iff.1 bound')
  rw [Option.some.inj same]
  exact paired

/-- **A flawed record** is none, or has a flawed field. -/
theorem recordFlaw_iff {v : Value} (distinct : (fields.map Field.name).Nodup) :
    RecordFlaw fields v ↔ ∀ values, record? (fields.map Field.name) v = some values →
      ∃ part ∈ fields.zip values, part.1.shape.Flaw part.2 := by
  have some_iff {values : List Value} : record? (fields.map Field.name) v = some values ↔
      values.length = fields.length ∧ Laid (fields.map Field.name) values v := by
    rw [record?_eq_some_iff distinct, List.length_map]
  constructor
  · intro flawed values found
    obtain ⟨length, laid⟩ := some_iff.1 found
    cases flawed with
    | kind noArray noObject =>
      cases v with
      | array items => exact absurd rfl (noArray items)
      | object bindings => exact absurd rfl (noObject bindings)
      | _ => exact laid.elim
    | length other => exact absurd (laid ▸ length) other
    | item mem flaw => exact ⟨_, laid ▸ mem, flaw⟩
    | @missing bindings field mem unbound =>
      have absent : record? (fields.map Field.name) (.object bindings) = none :=
        record?_eq_none_iff.2 (.inr (.inl ⟨bindings, rfl, _, List.mem_map_of_mem mem, unbound⟩))
      rw [absent] at found
      cases found
    | bound mem bound flaw => exact ⟨_, mem_zip_of_laid length laid mem bound, flaw⟩
  · intro flawed
    cases found : record? (fields.map Field.name) v with
    | none =>
      rw [record?_eq_none_iff, List.length_map] at found
      rcases found with ⟨items, rfl, length⟩ | ⟨bindings, rfl, name, mem, unbound⟩ |
        ⟨noArray, noObject⟩
      · exact .length length
      · obtain ⟨field, fieldMem, rfl⟩ := List.mem_map.1 mem
        exact .missing fieldMem unbound
      · exact .kind noArray noObject
    | some values =>
      obtain ⟨length, laid⟩ := some_iff.1 found
      obtain ⟨⟨field, value⟩, mem, flaw⟩ := flawed values found
      cases v with
      | array items => exact .item (laid ▸ mem) flaw
      | object bindings =>
        exact .bound (List.of_mem_zip mem).1 (laid.mem_counting (name_mem_zip mem)) flaw
      | _ => exact laid.elim

/-! ## Reading a record -/

/-- Read the value of the next field. -/
def next [Stored β] (rest : β → List Value → Option α) : List Value → Option α
  | [] => none
  | value :: values => (decode? value).bind fun b => rest b values

/-- The record after its last field. -/
def done (x : α) : List Value → Option α
  | [] => some x
  | _ :: _ => none

/-- Whether values are read as fields, in order, of a record with some property. The property is
what is known of the record from the fields before. -/
structure Builds (P : α → Prop) (fields : List (Field α)) (build : List Value → Option α) :
    Prop where
  written : ∀ x, (∀ field ∈ fields, field.shape.Fits x) →
    ∀ field ∈ fields, field.shape.Form x (field.write x)
  eq_some_iff : ∀ values x, build values = some x ↔ P x ∧ List.Forall₂ (fun field value =>
    field.shape.Fits x ∧ field.shape.Form x value) fields values
  eq_none_iff : ∀ values, values.length = fields.length → (build values = none ↔
    ∃ part ∈ fields.zip values, part.1.shape.Flaw part.2)

theorem Builds.done {P : α → Prop} (x : α) (only : ∀ y, P y ↔ x = y) :
    Builds P [] (Shape.done x) where
  written _ _ := List.forall_mem_nil _
  eq_some_iff values y := by
    cases values <;> simp [Shape.done, only]
  eq_none_iff values length := by
    rw [List.length_eq_zero_iff.1 length]
    simp [Shape.done]

theorem Builds.next [Stored β] {P : α → Prop} {shape : Shape β} (exact : shape.Exact)
    {name : String} {part : α → β} {rest : β → List Value → Option α}
    (later : ∀ b, Builds (fun x => P x ∧ part x = b) fields (rest b)) :
    Builds P (.of name part shape :: fields) (Shape.next rest) where
  written x fits := by
    obtain ⟨here, fits⟩ := List.forall_mem_cons.1 fits
    exact List.forall_mem_cons.2 ⟨exact.form_encode here, (later (part x)).written x fits⟩
  eq_some_iff values x := by
    cases values with
    | nil => simp [Shape.next]
    | cons value values =>
      simp only [Shape.next, Option.bind_eq_some_iff, exact.decode?_eq_some_iff,
        (later _).eq_some_iff, List.forall₂_cons]
      constructor
      · rintro ⟨_, first, ⟨holds, rfl⟩, others⟩
        exact ⟨holds, first, others⟩
      · rintro ⟨holds, first, others⟩
        exact ⟨part x, first, ⟨holds, rfl⟩, others⟩
  eq_none_iff values length := by
    cases values with
    | nil => cases length
    | cons value values =>
      have length : values.length = fields.length := Nat.succ.inj length
      rw [Shape.next, List.zip_cons_cons, List.exists_mem_cons_iff]
      cases read : (decode? value : Option β) with
      | none => exact iff_of_true rfl (.inl ((exact.decode?_eq_none_iff value).1 read))
      | some b =>
        have sound : ¬ shape.Flaw value := by
          rw [← exact.decode?_eq_none_iff, read]
          exact Option.some_ne_none b
        rw [Option.bind_some, (later b).eq_none_iff values length]
        exact (or_iff_right sound).symm

/-- **Records** are written and read in their shape if their fields are. -/
theorem record_exact [Stored α] {given build : List Value → Option α}
    (distinct : (fields.map Field.name).Nodup)
    (write : ∀ x : α, encode x = .object (fields.map fun field => (field.name, field.write x)))
    (read : ∀ v, decode? v = (record? (fields.map Field.name) v).bind given)
    (same : ∀ values, given values = build values)
    (builds : Builds (fun _ => True) fields build) : (record fields).Exact := by
  obtain rfl : given = build := funext same
  have read_iff : ∀ v x, decode? v = some x ↔
      (record fields).Fits x ∧ (record fields).Form x v := by
    intro v x
    simp only [read, Option.bind_eq_some_iff, record?_eq_some_iff distinct, builds.eq_some_iff,
      List.forall₂_and_left, true_and]
    constructor
    · rintro ⟨values, ⟨-, laid⟩, fits, form⟩
      exact ⟨fits, values, laid, form⟩
    · rintro ⟨fits, values, laid, form⟩
      exact ⟨values, ⟨by rw [← form.length_eq, List.length_map], laid⟩, fits, form⟩
  refine ⟨?_, read_iff, ?_⟩
  · intro x fits
    rw [read_iff, write]
    refine ⟨fits, fields.map fun field => field.write x, ?_, ?_⟩
    · have bindings : (fields.map fun field => (field.name, field.write x)) =
          (fields.map Field.name).zip (fields.map fun field => field.write x) := by
        rw [List.zip_map']
      rw [bindings]
      exact laid_object distinct (by simp)
    · rw [List.forall₂_map_right_iff, List.forall₂_same]
      exact builds.written x fits
  · intro v
    rw [read, Option.bind_eq_none_iff]
    refine Iff.trans (forall₂_congr fun values found => ?_) (recordFlaw_iff distinct).symm
    have length := ((record?_eq_some_iff distinct).1 found).1
    exact builds.eq_none_iff values (by rw [length, List.length_map])

end Shape

end Navigability.Json
