import SchemaGraph.Settings
import SchemaGraph.Toml.Document
import SchemaGraph.Toml.Quoted.Style

/-!
# Settings as TOML

Settings are read from a TOML text in which every one of them may be missing, and are written
out in full. The types are a table, or the array of its values in their order. What is not
known is passed over.
-/

namespace SchemaGraph

/-- Why there are no settings. -/
inductive SettingsError
  /-- The file cannot be read or written. -/
  | inaccessible (reason : String)
  /-- The text is no TOML, or a setting has a value of the wrong kind. -/
  | malformed
  /-- The blob type has the name of a primitive type. -/
  | blobIsPrimitive (name : String)
deriving DecidableEq, Repr

/-- The wording of an error. -/
def SettingsError.message : SettingsError → String
  | inaccessible reason => "IO error: " ++ reason
  | malformed => "Parse error"
  | blobIsPrimitive name =>
    "Builtin name '" ++ name ++ "' is declared as both a primitive and the blob type"

namespace Settings

/-- Read a switch, which is off if it is missing. -/
def switch? : Option Toml → Option Bool
  | none => some false
  | some (.boolean value) => some value
  | some _ => none

/-- Read a name, which has a default. -/
def name? (default : String) : Option Toml → Option String
  | none => some default
  | some (.string text) => some text
  | some _ => none

/-- Read the items of a list of names. -/
def nameItems? : List Toml → Option (List String)
  | [] => some []
  | .string text :: rest => (nameItems? rest).map (text :: ·)
  | _ :: _ => none

/-- Read a list of names, which has a default. -/
def names? (default : List String) : Option Toml → Option (List String)
  | none => some default
  | some (.array items) => nameItems? items
  | some _ => none

/-- Read the names of the builtin types from the two settings for them. -/
def builtins? (primitives blob : Option Toml) : Option (List String × String) := do
  let primitives ← names? defaultPrimitives primitives
  let blob ← name? defaultBlob blob
  some (primitives, blob)

/-- Read the names of the builtin types. A date in their place sets none of them. -/
def types? : Option Toml → Option (List String × String)
  | none => builtins? none none
  | some (.table _ entries) =>
    builtins? (Toml.Table.find? entries "primitives") (Toml.Table.find? entries "blob")
  | some (.array items) => builtins? items[0]? items[1]?
  | some (.moment _) => builtins? none none
  | some _ => none

/-- Read settings from a table. -/
def ofTable? (entries : Toml.Table) : Option Settings := do
  let camelCaseKeys ← switch? (entries.find? "camel_case_keys")
  let quiet ← switch? (entries.find? "quiet")
  let (primitives, blob) ← types? (entries.find? "types")
  some ⟨camelCaseKeys, quiet, primitives, blob⟩

/-- Read settings from a text. -/
def ofText (text : String) : Except SettingsError Settings :=
  match (Toml.Table.ofText? text).bind ofTable? with
  | none => .error .malformed
  | some settings =>
    if settings.primitives.contains settings.blob then .error (.blobIsPrimitive settings.blob)
    else .ok settings

/-- A switch written out. -/
def switchChars (value : Bool) : List Char :=
  if value then "true".toList else "false".toList

/-- A name written out. -/
def nameChars (name : String) : List Char :=
  Toml.Quoted.write name.toList

/-- A list of names written out: several names stand on lines of their own. -/
def namesChars : List String → List Char
  | [] => ['[', ']']
  | [name] => '[' :: (nameChars name ++ [']'])
  | names =>
    '[' :: '\n' ::
      (names.flatMap (fun name => "    ".toList ++ nameChars name ++ [',', '\n']) ++ [']'])

/-- The characters of settings written out. -/
def chars (settings : Settings) : List Char :=
  "camel_case_keys = ".toList ++ switchChars settings.camelCaseKeys ++
    "\nquiet = ".toList ++ switchChars settings.quiet ++
    "\n\n[types]\nprimitives = ".toList ++ namesChars settings.primitives ++
    "\nblob = ".toList ++ nameChars settings.blob ++ ['\n']

/-- Settings written out in full. -/
def text (settings : Settings) : String :=
  String.ofList settings.chars

end Settings

end SchemaGraph
