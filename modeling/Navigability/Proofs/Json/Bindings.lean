import Mathlib.Data.List.Forall2
import Mathlib.Data.List.Nodup
import Mathlib.Data.List.Pairwise
import Mathlib.Data.List.Perm.Subperm
import Navigability.Json.Value

/-!
# What an object binds

Of several bindings of one name the last one counts. An object is read by its counting bindings
only: a record is an object whose counting bindings are the fields, in any order, among bindings of
other names, or an array of the fields in the order of their names.

## Main definitions

* `Value.counting bindings`: the bindings that count
* `Value.Laid names values v`: whether `v` is a record of the values under the names

## Main results

* `Value.mem_counting_iff`: a name is looked up among the bindings that count
* `Value.record?_eq_some_iff`, `Value.record?_eq_none_iff`: what is a record, and what is none
* `Value.single?_eq_some_iff`: the objects with one name
-/

namespace Navigability.Json

section

variable {α β : Type} {f : α → Option β} {as : List α} {bs : List β}

theorem mapM_eq_some_iff : as.mapM f = some bs ↔ List.Forall₂ (fun a b => f a = some b) as bs := by
  induction as generalizing bs with
  | nil => simp [eq_comm]
  | cons a as ih =>
    rw [List.mapM_cons, List.forall₂_cons_left_iff]
    simp only [Option.bind_eq_bind, Option.bind_eq_some_iff, ih]
    constructor
    · rintro ⟨b, first, bs, rest, same⟩
      exact ⟨b, bs, first, rest, (Option.some.inj same).symm⟩
    · rintro ⟨b, bs, first, rest, rfl⟩
      exact ⟨b, first, bs, rest, rfl⟩

theorem mapM_eq_none_iff : as.mapM f = none ↔ ∃ a ∈ as, f a = none := by
  induction as with
  | nil => simp
  | cons a as ih =>
    rw [List.mapM_cons, List.exists_mem_cons_iff, ← ih]
    cases f a <;> cases as.mapM f <;> simp

end

namespace Value

variable {bindings : List (String × Value)} {name : String} {value : Value}

/-- The bindings that count: of each name the last one. -/
def counting (bindings : List (String × Value)) : List (String × Value) :=
  bindings.pwFilter fun binding later => binding.1 ≠ later.1

theorem counting_pairwise (bindings : List (String × Value)) :
    (counting bindings).Pairwise fun binding later => binding.1 ≠ later.1 :=
  List.pairwise_pwFilter bindings

theorem counting_subset (bindings : List (String × Value)) : counting bindings ⊆ bindings :=
  List.pwFilter_subset bindings

theorem get?_cons (binding : String × Value) (bindings : List (String × Value)) (name : String) :
    get? (binding :: bindings) name =
      (get? bindings name).or (if name = binding.1 then some binding.2 else none) := by
  obtain ⟨name', value⟩ := binding
  rw [get?, List.reverse_cons, List.lookup_append, List.lookup_cons, List.lookup_nil, get?]
  by_cases same : name = name'
  · rw [same, BEq.refl, if_pos rfl]
  · rw [beq_false_of_ne same, if_neg same]

theorem get?_eq_none_iff : get? bindings name = none ↔ ∀ value, (name, value) ∉ bindings := by
  rw [get?, List.lookup_eq_none_iff]
  constructor
  · intro absent value mem
    simpa using absent _ (List.mem_reverse.2 mem)
  · rintro absent ⟨name', value⟩ mem
    rw [bne_iff_ne]
    rintro rfl
    exact absent value (List.mem_reverse.1 mem)

/-- **A name is looked up** among the bindings that count. -/
theorem mem_counting_iff : (name, value) ∈ counting bindings ↔ get? bindings name = some value := by
  induction bindings generalizing name value with
  | nil => simp [counting, get?]
  | cons binding bindings ih =>
    rw [get?_cons]
    by_cases fresh : ∀ later ∈ counting bindings, binding.1 ≠ later.1
    · have unbound : get? bindings binding.1 = none := by
        rw [Option.eq_none_iff_forall_ne_some]
        intro value bound
        exact fresh _ (ih.2 bound) rfl
      rw [counting, List.pwFilter_cons_of_pos fresh, List.mem_cons, ← counting, ih]
      by_cases here : name = binding.1
      · subst here
        simp [unbound, Prod.ext_iff, eq_comm]
      · simp [here, Prod.ext_iff]
    · rw [counting, List.pwFilter_cons_of_neg fresh, ← counting, ih]
      by_cases here : name = binding.1
      · subst here
        push Not at fresh
        obtain ⟨⟨_, value'⟩, mem, rfl⟩ := fresh
        rw [ih.1 mem, Option.some_or]
      · simp [here]

theorem exists_mem_counting (mem : (name, value) ∈ bindings) :
    ∃ last, (name, last) ∈ counting bindings := by
  cases found : get? bindings name with
  | none => exact absurd mem (get?_eq_none_iff.1 found value)
  | some last => exact ⟨last, mem_counting_iff.2 found⟩

/-! ## Records -/

variable {names : List String} {values : List Value} {v : Value}

/-- Whether a value is a record of the values under the names: an array of them, or an object that
binds each name to its value, and perhaps other names. -/
def Laid (names : List String) (values : List Value) : Value → Prop
  | array items => items = values
  | object bindings => ∃ unknown, (counting bindings).Perm (names.zip values ++ unknown)
  | _ => False

theorem Laid.mem_counting (laid : Laid names values (object bindings))
    (mem : (name, value) ∈ names.zip values) : (name, value) ∈ counting bindings := by
  obtain ⟨unknown, perm⟩ := laid
  exact perm.mem_iff.2 (List.mem_append_left unknown mem)

theorem laid_object (distinct : names.Nodup) (length : names.length ≤ values.length) :
    Laid names values (object (names.zip values)) := by
  have once : (names.zip values).Pairwise fun binding later => binding.1 ≠ later.1 := by
    rw [← List.pairwise_map, List.map_fst_zip length]
    exact distinct
  refine ⟨[], ?_⟩
  rw [counting, List.pwFilter_eq_self.2 once, List.append_nil]

theorem mapM_get?_eq_some_iff (distinct : names.Nodup) :
    names.mapM (get? bindings) = some values ↔
      values.length = names.length ∧
        ∃ unknown, (counting bindings).Perm (names.zip values ++ unknown) := by
  rw [mapM_eq_some_iff, List.forall₂_iff_zip, @eq_comm _ values.length]
  refine and_congr_right fun length => ?_
  simp only [← mem_counting_iff]
  constructor
  · intro found
    have once : (names.zip values).Nodup := by
      apply List.Nodup.of_map Prod.fst
      rwa [List.map_fst_zip (Nat.le_of_eq length)]
    have inside : names.zip values ⊆ counting bindings := fun ⟨name, value⟩ mem => found mem
    obtain ⟨fields, perm, sublist⟩ := List.subperm_of_subset once inside
    obtain ⟨unknown, rest⟩ := sublist.exists_perm_append
    exact ⟨unknown, rest.trans (perm.append_right unknown)⟩
  · intro laid name value mem
    exact Laid.mem_counting laid mem

/-- **A record** has a value for each name. -/
theorem record?_eq_some_iff (distinct : names.Nodup) :
    record? names v = some values ↔ values.length = names.length ∧ Laid names values v := by
  cases v with
  | array items =>
    rw [record?_array, Laid]
    split
    · next length =>
      rw [Option.some_inj]
      exact ⟨fun same => ⟨same ▸ length, same⟩, fun same => same.2⟩
    · next length =>
      refine iff_of_false (by simp) ?_
      rintro ⟨length', rfl⟩
      exact length length'
  | object bindings => exact mapM_get?_eq_some_iff distinct
  | _ => simp [record?, Laid]

/-- **No record** is an array of another length, an object that does not bind all of the names, or
a value of another kind. -/
theorem record?_eq_none_iff :
    record? names v = none ↔
      (∃ items, v = array items ∧ items.length ≠ names.length) ∨
      (∃ bindings, v = object bindings ∧ ∃ name ∈ names, ∀ value, (name, value) ∉ bindings) ∨
      (∀ items, v ≠ array items) ∧ ∀ bindings, v ≠ object bindings := by
  cases v with
  | array items => simp [record?_array]
  | object bindings => simp [record?_object, mapM_eq_none_iff, get?_eq_none_iff]
  | _ => simp [record?]

/-! ## Objects with one name -/

theorem counting_eq_singleton_iff :
    counting bindings = [(name, value)] ↔
      get? bindings name = some value ∧ ∀ binding ∈ bindings, binding.1 = name := by
  constructor
  · intro alone
    refine ⟨mem_counting_iff.1 (alone ▸ List.mem_singleton_self _), ?_⟩
    rintro ⟨name', value'⟩ mem
    obtain ⟨last, counts⟩ := exists_mem_counting mem
    rw [alone, List.mem_singleton] at counts
    exact congrArg Prod.fst counts
  · rintro ⟨found, same⟩
    have counts := mem_counting_iff.2 found
    have distinct := counting_pairwise bindings
    have subset := counting_subset bindings
    cases counted : counting bindings with
    | nil => exact absurd counts (counted ▸ List.not_mem_nil)
    | cons first others =>
      rw [counted] at counts distinct subset
      obtain ⟨here, later⟩ := List.forall_mem_cons.1 fun binding mem => same binding (subset mem)
      have none : others = [] := by
        rw [List.eq_nil_iff_forall_not_mem]
        intro binding mem
        exact (List.pairwise_cons.1 distinct).1 binding mem (here.trans (later binding mem).symm)
      rw [none, List.mem_singleton] at counts
      rw [none, counts]

/-- **An object with one name** has one binding that counts. -/
theorem single?_eq_some_iff :
    single? v = some (name, value) ↔
      ∃ bindings, v = object bindings ∧ counting bindings = [(name, value)] := by
  cases v with
  | object bindings =>
    simp only [object.injEq, exists_eq_left', counting_eq_singleton_iff]
    cases bindings with
    | nil => simp [single?, get?]
    | cons first bindings =>
      obtain ⟨name', value'⟩ := first
      rw [single?, List.forall_mem_cons]
      constructor
      · intro single
        split at single
        · next same =>
          obtain ⟨last, found, pair⟩ := Option.map_eq_some_iff.1 single
          obtain ⟨rfl, rfl⟩ := Prod.mk.inj pair
          exact ⟨found, rfl, by simpa using same⟩
        · cases single
      · rintro ⟨found, rfl, same⟩
        rw [if_pos (by simpa using same), found]
        rfl
  | _ => simp [single?]

end Value

end Navigability.Json
