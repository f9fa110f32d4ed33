import SchemaGraph.Toml

/-!
# How tables grow

A text builds up its table entry by entry. Nothing may be set twice. A dotted key goes through
tables that are only mentioned, and adds to tables that dotted keys made; a header may go
through any table that is not closed, and turns a table that headers only mentioned into one
with a header. Where a repeated header stands on the way, its last table is meant.
-/

namespace SchemaGraph.Toml.Table

/-- Give a key another value, depending on what it had. -/
def change (name : String) (update : Option Toml → Option Toml) : Table → Option Table
  | [] =>
    match update none with
    | some value => some [(name, value)]
    | none => none
  | (key, value) :: rest =>
    if key = name then
      match update (some value) with
      | some changed => some ((key, changed) :: rest)
      | none => none
    else
      match change name update rest with
      | some changed => some ((key, value) :: changed)
      | none => none

/-- The value of a key. -/
def find? (entries : Table) (name : String) : Option Toml :=
  (List.find? (·.1 == name) entries).map Prod.snd

/-- Set a key that is not set. -/
def set (name : String) (value : Toml) (grown : Table) : Option Table :=
  grown.change name fun
    | none => some value
    | some _ => none

/-- A dotted key may go through a table of this form. The table where its path ends has to be one
that dotted keys made. -/
def admitsDotted (ends : Bool) : TableForm → Bool
  | .dotted => true
  | .mentioned => !ends
  | _ => false

/-- Set a dotted key. -/
def assign (name : String) (value : Toml) : List String → Table → Option Table
  | [], grown => grown.set name value
  | first :: path, grown =>
    grown.change first fun
      | none => (assign name value path []).map (.table .dotted)
      | some (.table form entries) =>
        if admitsDotted path.isEmpty form then (assign name value path entries).map (.table form)
        else none
      | some (.tables earlier last) =>
        if path.isEmpty then none else (assign name value path last).map (.tables earlier)
      | some _ => none

/-- Change the table that a header means, going through the tables on its way. -/
def within (update : Table → Option Table) : List String → Table → Option Table
  | [], grown => update grown
  | first :: path, grown =>
    grown.change first fun
      | none => (within update path []).map (.table .mentioned)
      | some (.table .closed _) => none
      | some (.table form entries) => (within update path entries).map (.table form)
      | some (.tables earlier last) => (within update path last).map (.tables earlier)
      | some _ => none

/-- Begin a table with a header. -/
def openTable (name : String) (grown : Table) : Option Table :=
  grown.change name fun
    | none => some (.table .headed [])
    | some (.table .mentioned entries) => some (.table .headed entries)
    | some _ => none

/-- Begin a table with a repeated header. -/
def openRepeated (name : String) (grown : Table) : Option Table :=
  grown.change name fun
    | none => some (.tables [] [])
    | some (.tables earlier last) => some (.tables (earlier ++ [last]) [])
    | some _ => none

/-- The table of assignments, each with a dotted key. -/
def ofAssignments? (assignments : List (Key × Toml)) : Option Table :=
  assignments.foldlM (fun grown (key, value) => grown.assign key.name value key.path) []

end SchemaGraph.Toml.Table
