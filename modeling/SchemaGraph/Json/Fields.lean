import SchemaGraph.Json

/-!
# Values with named fields

How a value with a fixed set of fields is read from JSON. It is an object, or the array of its
fields in their order. In an object a known field may not be given twice, and unknown fields
are passed over. One of a set of words is a string, or an object with the word as its one key
and null as its value.
-/

namespace SchemaGraph.Json

/-- The value of a field: missing, or given once. -/
def field? (fields : List (String × Json)) (name : String) : Option (Option Json) :=
  match fields.filter (·.1 == name) with
  | [] => some none
  | [(_, value)] => some (some value)
  | _ => none

/-- The values of named fields, in the order of the names. -/
def fields? (given : List (String × Json)) : List String → Option (List (Option Json))
  | [] => some []
  | name :: names =>
    match field? given name, fields? given names with
    | some value, some values => some (value :: values)
    | _, _ => none

/-- The values of named fields. In an array only fields behind the first `least` may be left
out. -/
def record? (names : List String) (least : Nat) : Json → Option (List (Option Json))
  | object given => fields? given names
  | array items =>
    if least ≤ items.length ∧ items.length ≤ names.length then
      some (items.map some ++ List.replicate (names.length - items.length) none)
    else none
  | _ => none

/-- Read every item of a list. -/
def each? {α : Type} (read : Json → Option α) : List Json → Option (List α)
  | [] => some []
  | item :: rest =>
    match read item, each? read rest with
    | some value, some values => some (value :: values)
    | _, _ => none

/-- Read every item of an array. -/
def items? {α : Type} (read : Json → Option α) : Json → Option (List α)
  | array items => each? read items
  | _ => none

/-- Read a text. -/
def text? : Json → Option String
  | string text => some text
  | _ => none

/-- Read a natural number below a limit. -/
def below? (limit : Nat) : Json → Option Nat
  | natural value => if value < limit then some value else none
  | _ => none

/-- Read one of a set of words from a string. -/
def plainWord? {α : Type} (ofWord? : String → Option α) : Json → Option α
  | string text => ofWord? text
  | _ => none

/-- Read one of a set of words. -/
def word? {α : Type} (ofWord? : String → Option α) : Json → Option α
  | string text => ofWord? text
  | object [(key, null)] => ofWord? key
  | _ => none

/-- Read a field that must be given. -/
def required? {α : Type} (read : Json → Option α) : Option Json → Option α
  | some value => read value
  | none => none

/-- Read a field that may be missing or null. -/
def optional? {α : Type} (read : Json → Option α) : Option Json → Option (Option α)
  | none => some none
  | some null => some none
  | some value => (read value).map some

/-- Read a field that has a default. -/
def defaulted? {α : Type} (default : α) (read : Json → Option α) : Option Json → Option α
  | none => some default
  | some value => read value

/-- The field of a number that may be missing. -/
def naturalField (name : String) : Option Nat → List (String × Json)
  | some value => [(name, natural value)]
  | none => []

/-- The field of a text that may be missing. -/
def textField (name : String) : Option String → List (String × Json)
  | some value => [(name, string value)]
  | none => []

end SchemaGraph.Json
