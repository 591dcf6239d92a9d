/-!
# Data values

The values of the data format in which settings and reports are stored: null, booleans, numbers,
strings, arrays and objects. Numbers are kept as they were written, because only a number without a
fraction and an exponent is an integer. An object is a list of bindings in which the last binding
of a name counts.

## Main definitions

* `Value`: the values
* `Value.get?`: the value that an object binds to a name
* `Value.record?`: the fields of a record, which is an object or an array
* `Value.single?`: the one binding of an object

## Main results

* `Value.record?_array`: an array is a record of exactly its items
* `Value.record?_object`: an object is a record of the values bound to the field names
-/

namespace Navigability.Json

/-- A value of the data format. -/
inductive Value where
  | null
  | bool (b : Bool)
  | integer (n : Int)
  /-- A number written with a fraction or an exponent, or as minus zero. -/
  | decimal (written : String)
  | string (s : String)
  | array (items : List Value)
  | object (bindings : List (String × Value))

namespace Value

/-- The value an object binds to a name: the last one, if there are several. -/
def get? (bindings : List (String × Value)) (name : String) : Option Value :=
  bindings.reverse.lookup name

/-- The values of a record's fields, in the order of `names`. A record is an object that binds all
the names, and perhaps others, or an array of exactly as many items as there are names. -/
def record? (names : List String) : Value → Option (List Value)
  | object bindings => names.mapM (get? bindings)
  | array items => if items.length = names.length then some items else none
  | _ => none

/-- The one name that an object binds, and its value, if it binds no other. -/
def single? : Value → Option (String × Value)
  | object ((name, value) :: bindings) =>
    if bindings.all fun binding => binding.1 == name then
      (get? ((name, value) :: bindings) name).map fun value => (name, value)
    else none
  | _ => none

theorem record?_array (names : List String) (items : List Value) :
    record? names (array items) = if items.length = names.length then some items else none := rfl

theorem record?_object (names : List String) (bindings : List (String × Value)) :
    record? names (object bindings) = names.mapM (get? bindings) := rfl

end Value

end Navigability.Json
