import SchemaGraph.Json
import SchemaGraph.Json.Token

/-!
# Reading JSON

A text is read strictly: one value, no commas too many, nothing behind the value. Keys may be
repeated and values may be nested to any depth; what is made of a value decides whether that
is accepted.
-/

namespace SchemaGraph.Json

/-- The object with these fields, if all keys spell text. -/
def ofFields (fields : List (Option String × Json)) : Json :=
  match fields.mapM fun (key, value) => key.map (·, value) with
  | some fields => object fields
  | none => illFormed

mutual
/-- The value at the front of a token sequence. The bound limits the steps. -/
def valueWithin : Nat → List Token → Option (Json × List Token)
  | 0, _ => none
  | _ + 1, [] => none
  | bound + 1, token :: rest =>
    match token with
    | .null => some (null, rest)
    | .boolean value => some (boolean value, rest)
    | .natural value => some (natural value, rest)
    | .numeral text => some (numeral text, rest)
    | .string (some text) => some (string text, rest)
    | .string none => some (illFormed, rest)
    | .openArray =>
      match rest with
      | .closeArray :: rest => some (array [], rest)
      | _ => (itemsWithin bound rest).map fun (items, rest) => (array items, rest)
    | .openObject =>
      match rest with
      | .closeObject :: rest => some (object [], rest)
      | _ => (fieldsWithin bound rest).map fun (fields, rest) => (ofFields fields, rest)
    | _ => none
/-- The items of an array that is not empty, up to its closing bracket. -/
def itemsWithin : Nat → List Token → Option (List Json × List Token)
  | 0, _ => none
  | bound + 1, tokens =>
    match valueWithin bound tokens with
    | some (item, .comma :: rest) =>
      (itemsWithin bound rest).map fun (items, rest) => (item :: items, rest)
    | some (item, .closeArray :: rest) => some ([item], rest)
    | _ => none
/-- The fields of an object that is not empty, up to its closing brace. -/
def fieldsWithin : Nat → List Token → Option (List (Option String × Json) × List Token)
  | 0, _ => none
  | bound + 1, .string key :: .colon :: tokens =>
    match valueWithin bound tokens with
    | some (value, .comma :: rest) =>
      (fieldsWithin bound rest).map fun (fields, rest) => ((key, value) :: fields, rest)
    | some (value, .closeObject :: rest) => some ([(key, value)], rest)
    | _ => none
  | _ + 1, _ => none
end

/-- The value that a token sequence spells. Each token takes at most two steps. -/
def ofTokens? (tokens : List Token) : Option Json :=
  match valueWithin (2 * tokens.length) tokens with
  | some (value, []) => some value
  | _ => none

/-- The value that a text spells. -/
def ofText? (text : String) : Option Json :=
  match Token.scan? text.toList with
  | some tokens => ofTokens? tokens
  | none => none

end SchemaGraph.Json
