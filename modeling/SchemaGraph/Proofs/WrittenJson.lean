import SchemaGraph.Json.Reader
import SchemaGraph.Proofs.JsonTokens

/-!
# Written JSON is read back

A plain value holds no numbers but natural ones and nothing that spells no text. Both ways of
writing it, without blanks and with one field or item on a line, are cut into the same tokens, and
these are read as the value. So nothing is lost when a plain value is written and read.
-/

namespace SchemaGraph.Json

open Token

/-- The value has a written form that spells it. -/
inductive Plain : Json → Prop
  | null : Plain null
  | boolean (value : Bool) : Plain (boolean value)
  | natural (value : Nat) : Plain (natural value)
  | string (text : String) : Plain (string text)
  | array {items : List Json} (plain : ∀ item ∈ items, Plain item) : Plain (array items)
  | object {fields : List (String × Json)} (plain : ∀ field ∈ fields, Plain field.2) :
    Plain (object fields)

/-- A value that may be missing is plain if it is whenever it is there. -/
theorem Plain.ofMap {α : Type} {write : α → Json} (plain : ∀ value, Plain (write value))
    (written : Option α) : ∀ json ∈ written.map write, Plain json := by
  intro json given
  obtain ⟨value, _, rfl⟩ := Option.map_eq_some_iff.mp given
  exact plain value

mutual
/-- The tokens of a plain value. -/
def tokens : Json → List Token
  | array items => openArray :: ([comma].intercalate (itemTokens items) ++ [closeArray])
  | object fields => openObject :: ([comma].intercalate (fieldTokens fields) ++ [closeObject])
  | null => [.null]
  | boolean value => [.boolean value]
  | natural value => [.natural value]
  | string text => [.string (some text)]
  | numeral text => [.numeral text]
  | illFormed => [.string none]
/-- The tokens of each item. -/
def itemTokens : List Json → List (List Token)
  | [] => []
  | item :: rest => tokens item :: itemTokens rest
/-- The tokens of each field. -/
def fieldTokens : List (String × Json) → List (List Token)
  | [] => []
  | (key, value) :: rest => (.string (some key) :: colon :: tokens value) :: fieldTokens rest
end

/-- The tokens of items are those of each. -/
theorem itemTokens_eq_map (items : List Json) : itemTokens items = items.map tokens := by
  induction items with
  | nil => rfl
  | cons item rest ih => rw [itemTokens, ih, List.map_cons]

/-- The tokens of fields are those of each, behind its name and a colon. -/
theorem fieldTokens_eq_map (fields : List (String × Json)) :
    fieldTokens fields =
      fields.map fun field => .string (some field.1) :: colon :: tokens field.2 := by
  induction fields with
  | nil => rfl
  | cons field rest ih => rw [fieldTokens, ih, List.map_cons]

/-! ### Both written forms are cut into the tokens -/

/-- Pieces that are written one after the other, with a separator in front of all but the first. -/
theorem eq_intercalate {α : Type} {write : List α → List Char} {piece : α → List Char}
    {separator : List Char} (none : write [] = []) (last : ∀ item, write [item] = piece item)
    (further : ∀ item next rest, write (item :: next :: rest) =
      piece item ++ (separator ++ write (next :: rest))) (items : List α) :
    write items = separator.intercalate (items.map piece) := by
  induction items with
  | nil => exact none
  | cons item rest ih =>
    cases rest with
    | nil => simp [last]
    | cons next rest => simp [further, ih, List.intercalate_cons_cons]

/-- Items are written with commas between them. -/
theorem compactItems_eq (items : List Json) :
    compactItems items = [','].intercalate (items.map compactChars) :=
  eq_intercalate (by simp [compactItems]) (by simp [compactItems]) (by simp [compactItems]) items

/-- The compact text of fields has their values behind names and colons, with commas in between. -/
theorem compactFields_eq (fields : List (String × Json)) :
    compactFields fields = [','].intercalate
      (fields.map fun field => quoted field.1 ++ ':' :: compactChars field.2) :=
  eq_intercalate (by simp [compactFields]) (by simp [compactFields]) (by simp [compactFields])
    fields

/-- On lines of their own, items are written with commas at the ends of the lines. -/
theorem prettyItems_eq (depth : Nat) (items : List Json) :
    prettyItems depth items =
      (',' :: newLine depth).intercalate (items.map (prettyChars depth)) :=
  eq_intercalate (by simp [prettyItems]) (by simp [prettyItems]) (by simp [prettyItems]) items

/-- The text of fields over several lines has a comma and a line break between two of them. -/
theorem prettyFields_eq (depth : Nat) (fields : List (String × Json)) :
    prettyFields depth fields =
      (',' :: newLine depth).intercalate
        (fields.map fun field => quoted field.1 ++ ':' :: ' ' :: prettyChars depth field.2) :=
  eq_intercalate (by simp [prettyFields]) (by simp [prettyFields]) (by simp [prettyFields]) fields

namespace Token

/-- Lines are broken and indented by nothing but space. -/
theorem isSpace_of_mem_newLine {depth : Nat} {c : Char} (listed : c ∈ newLine depth) :
    isSpace c = true := by
  obtain rfl | blank := List.mem_cons.mp listed
  · decide
  · rw [List.eq_of_mem_replicate blank]
    decide

/-- Pieces that are scanned one by one are scanned when commas stand between them. -/
theorem scans_intercalate {α : Type} (blanks : List Char)
    (space : ∀ c ∈ blanks, isSpace c = true) {chars : α → List Char} {tokens : α → List Token}
    {pieces : List α} (scans : ∀ piece ∈ pieces, Scans (chars piece) (tokens piece)) :
    Scans ((',' :: blanks).intercalate (pieces.map chars))
      ([comma].intercalate (pieces.map tokens)) := by
  induction pieces with
  | nil => exact scans_nil
  | cons piece rest ih =>
    have first := scans piece List.mem_cons_self
    have others := ih fun other listed => scans other (List.mem_cons_of_mem _ listed)
    cases rest with
    | nil => simpa using first
    | cons next rest =>
      have behind := marks_comma.scans_cons (.spaces space others)
      have whole := first.append behind (by simpa using marks_comma.apart) (by simp)
      simpa [List.intercalate_cons_cons] using whole

/-- A key, a colon, blanks and a value are scanned as a field. -/
theorem scans_field (key : String) (blanks : List Char) (space : ∀ c ∈ blanks, isSpace c = true)
    {text : List Char} {tokens : List Token} (scans : Scans text tokens) :
    Scans (quoted key ++ ':' :: (blanks ++ text)) (.string (some key) :: colon :: tokens) :=
  (scans_quoted key).append (marks_colon.scans_cons (.spaces space scans))
    (by simpa using marks_colon.apart) (by simp)

/-- What stands between brackets, with blanks around it, is scanned between the tokens of these. -/
theorem scans_enclosed {opening closing : Char} {first last : Token}
    (opens : Marks opening first) (closes : Marks closing last) (before behind : List Char)
    (space : ∀ c ∈ before ++ behind, isSpace c = true) {text : List Char} {tokens : List Token}
    (scans : Scans text tokens) :
    Scans (opening :: (before ++ text ++ behind ++ [closing])) (first :: (tokens ++ [last])) := by
  have ends : Scans (behind ++ [closing]) [last] :=
    .spaces (fun c listed => space c (List.mem_append_right _ listed))
      (closes.scans_cons scans_nil)
  have apart : Text.Stops continuesNumber (behind ++ [closing]) := by
    cases behind with
    | nil => simpa using closes.apart
    | cons c rest => simpa using continuesNumber_of_isSpace (space c (by simp))
  have whole := opens.scans_cons (.spaces (fun c listed => space c (List.mem_append_left _ listed))
    (scans.append ends apart (by simp)))
  simpa using whole

/-- The word for no value is one token. -/
theorem scans_null : Scans "null".toList [.null] :=
  scans_of_first? rfl fun _ _ => rfl

/-- The text of a truth value is scanned as one token. -/
theorem scans_boolean (value : Bool) : Scans (scalarChars (.boolean value)) [.boolean value] := by
  cases value with
  | false => exact scans_of_first? rfl fun _ _ => rfl
  | true => exact scans_of_first? rfl fun _ _ => rfl

end Token

/-- A plain value is written in its tokens. -/
theorem Plain.scans_compact {json : Json} (plain : json.Plain) :
    Scans json.compactChars json.tokens := by
  have noBlanks : ∀ c ∈ ([] : List Char), isSpace c = true := by simp
  induction plain with
  | null => exact scans_null
  | boolean value => exact scans_boolean value
  | natural value => exact scans_toDigits value
  | string text => exact scans_quoted text
  | @array items _ ih =>
    have inner := scans_intercalate [] noBlanks ih
    rw [compactChars, tokens, compactItems_eq, itemTokens_eq_map]
    simpa using scans_enclosed marks_openArray marks_closeArray [] [] noBlanks inner
  | @object fields _ ih =>
    have inner := scans_intercalate [] noBlanks fun field listed =>
      scans_field field.1 [] noBlanks (ih field listed)
    rw [compactChars, tokens, compactFields_eq, fieldTokens_eq_map]
    simpa using scans_enclosed marks_openObject marks_closeObject [] [] noBlanks inner

/-- A plain value is scanned from its text over several lines as its tokens, at any depth. -/
theorem Plain.scans_pretty {json : Json} (plain : json.Plain) (depth : Nat) :
    Scans (json.prettyChars depth) json.tokens := by
  have space {depth : Nat} : ∀ c ∈ newLine depth, isSpace c = true :=
    fun _ => isSpace_of_mem_newLine
  have around {depth : Nat} : ∀ c ∈ newLine (depth + 1) ++ newLine depth, isSpace c = true :=
    fun c listed => (List.mem_append.mp listed).elim (space c) (space c)
  induction plain generalizing depth with
  | null => exact scans_null
  | boolean value => exact scans_boolean value
  | natural value => exact scans_toDigits value
  | string text => exact scans_quoted text
  | @array items _ ih =>
    cases items with
    | nil => exact scans_enclosed marks_openArray marks_closeArray [] [] (by simp) scans_nil
    | cons item rest =>
      have inner := scans_intercalate (newLine (depth + 1)) space fun item listed =>
        ih item listed (depth + 1)
      rw [prettyChars, tokens, prettyItems_eq, itemTokens_eq_map]
      · exact scans_enclosed marks_openArray marks_closeArray _ _ around inner
      · simp
  | @object fields _ ih =>
    cases fields with
    | nil => exact scans_enclosed marks_openObject marks_closeObject [] [] (by simp) scans_nil
    | cons field rest =>
      have inner := scans_intercalate (newLine (depth + 1)) space fun field listed =>
        scans_field field.1 [' '] (by simp [isSpace]) (ih field listed (depth + 1))
      rw [prettyChars, tokens, prettyFields_eq, fieldTokens_eq_map]
      · exact scans_enclosed marks_openObject marks_closeObject _ _ around inner
      · simp

/-! ### The tokens are read as the value -/

/-- The tokens of the value are read as the value, whatever follows them. -/
def Reads (json : Json) : Prop :=
  ∀ bound behind, 2 * json.tokens.length ≤ bound →
    valueWithin bound (json.tokens ++ behind) = some (json, behind)

/-- No item begins with the bracket that closes an array. -/
theorem valueWithin_openArray {bound : Nat} {rest behind : List Token} {items : List Json}
    (read : itemsWithin bound rest = some (items, behind)) :
    valueWithin (bound + 1) (openArray :: rest) = some (array items, behind) := by
  rw [valueWithin]
  · simp [read]
  · rintro _ rfl
    cases bound with
    | zero => simp [itemsWithin] at read
    | succ bound => cases bound <;> simp [itemsWithin, valueWithin] at read

/-- Fields whose names are texts make up an object. -/
theorem ofFields_map_some (fields : List (String × Json)) :
    ofFields (fields.map fun field => (some field.1, field.2)) = object fields := by
  have each : fields.mapM some = some fields :=
    (List.mapM_pure (m := Option) (f := id)).trans (by simp)
  simp [ofFields, List.mapM_map, Function.comp_def, each]

/-- No field begins with the brace that closes an object. -/
theorem valueWithin_openObject {bound : Nat} {rest behind : List Token}
    {fields : List (String × Json)}
    (read : fieldsWithin bound rest =
      some (fields.map fun field => (some field.1, field.2), behind)) :
    valueWithin (bound + 1) (openObject :: rest) = some (object fields, behind) := by
  rw [valueWithin]
  · simp [read, ofFields_map_some]
  · rintro _ rfl
    cases bound <;> simp [fieldsWithin] at read

/-- The tokens of the first item stand in front of a comma and those of the others. -/
theorem intercalate_cons_cons {first : List Token} {others : List (List Token)}
    (filled : others ≠ []) (behind : List Token) :
    [comma].intercalate (first :: others) ++ behind =
      first ++ comma :: ([comma].intercalate others ++ behind) := by
  simp [List.intercalate_cons_of_ne_nil filled]

/-- Items are read back up to the bracket behind them, if there is room. -/
theorem itemsWithin_of_reads {items : List Json} (filled : items ≠ [])
    (reads : ∀ item ∈ items, item.Reads) (behind : List Token) (bound : Nat)
    (enough : 2 * ([comma].intercalate (itemTokens items)).length < bound) :
    itemsWithin bound ([comma].intercalate (itemTokens items) ++ closeArray :: behind) =
      some (items, behind) := by
  induction items generalizing bound with
  | nil => exact absurd rfl filled
  | cons item rest ih =>
    obtain ⟨bound, rfl⟩ := Nat.exists_eq_add_one_of_ne_zero (show bound ≠ 0 by omega)
    have first := reads item List.mem_cons_self bound
    rw [itemTokens] at enough ⊢
    cases rest with
    | nil =>
      rw [itemTokens, List.intercalate_singleton] at enough ⊢
      rw [itemsWithin, first _ (by omega)]
    | cons next rest =>
      have several : itemTokens (next :: rest) ≠ [] := by simp [itemTokens]
      rw [List.intercalate_cons_of_ne_nil several] at enough
      simp only [List.length_append, List.length_singleton] at enough
      have others := ih (by simp) (fun other listed => reads other (List.mem_cons_of_mem _ listed))
        bound (by omega)
      rw [intercalate_cons_cons several, itemsWithin, first _ (by omega)]
      simp [others]

/-- The tokens of fields are read up to the brace behind them. -/
theorem fieldsWithin_of_reads {fields : List (String × Json)} (filled : fields ≠ [])
    (reads : ∀ field ∈ fields, field.2.Reads) (behind : List Token) (bound : Nat)
    (enough : 2 * ([comma].intercalate (fieldTokens fields)).length < bound) :
    fieldsWithin bound ([comma].intercalate (fieldTokens fields) ++ closeObject :: behind) =
      some (fields.map fun field => (some field.1, field.2), behind) := by
  induction fields generalizing bound with
  | nil => exact absurd rfl filled
  | cons field rest ih =>
    obtain ⟨bound, rfl⟩ := Nat.exists_eq_add_one_of_ne_zero (show bound ≠ 0 by omega)
    have first := reads field List.mem_cons_self bound
    rw [fieldTokens] at enough ⊢
    cases rest with
    | nil =>
      rw [fieldTokens, List.intercalate_singleton] at enough ⊢
      simp only [List.length_cons] at enough
      rw [List.cons_append, List.cons_append, fieldsWithin, first _ (by omega)]
      rfl
    | cons next rest =>
      have several : fieldTokens (next :: rest) ≠ [] := by simp [fieldTokens]
      rw [List.intercalate_cons_of_ne_nil several] at enough
      simp only [List.length_append, List.length_cons, List.length_nil] at enough
      have others := ih (by simp) (fun other listed => reads other (List.mem_cons_of_mem _ listed))
        bound (by omega)
      rw [intercalate_cons_cons several, List.cons_append, List.cons_append, fieldsWithin,
        first _ (by omega)]
      simp [others]

/-- A plain value is read from its tokens. -/
theorem Plain.reads {json : Json} (plain : json.Plain) : json.Reads := by
  intro bound behind enough
  induction plain generalizing bound behind with
  | null | boolean | natural | string =>
    have positive : 2 ≤ bound := enough
    obtain ⟨bound, rfl⟩ := Nat.exists_eq_add_one_of_ne_zero (show bound ≠ 0 by omega)
    rfl
  | @array items _ ih =>
    rw [tokens, List.length_cons, List.length_append, List.length_singleton] at enough
    obtain ⟨bound, rfl⟩ := Nat.exists_eq_add_one_of_ne_zero (show bound ≠ 0 by omega)
    rw [tokens, List.cons_append, List.append_assoc, List.singleton_append]
    cases items with
    | nil => rfl
    | cons item rest =>
      exact valueWithin_openArray (itemsWithin_of_reads (by simp) ih behind bound (by omega))
  | @object fields _ ih =>
    rw [tokens, List.length_cons, List.length_append, List.length_singleton] at enough
    obtain ⟨bound, rfl⟩ := Nat.exists_eq_add_one_of_ne_zero (show bound ≠ 0 by omega)
    rw [tokens, List.cons_append, List.append_assoc, List.singleton_append]
    cases fields with
    | nil => rfl
    | cons field rest =>
      exact valueWithin_openObject (fieldsWithin_of_reads (by simp) ih behind bound (by omega))

/-- Any text that is cut into the tokens of a plain value spells the value. -/
theorem Plain.ofText?_of_scans {json : Json} (plain : json.Plain) {text : List Char}
    (scans : Scans text json.tokens) : ofText? (String.ofList text) = some json := by
  have read := plain.reads (2 * json.tokens.length) [] (Nat.le_refl _)
  rw [List.append_nil] at read
  rw [ofText?, String.toList_ofList, scans.scan?]
  simp [ofTokens?, read]

/-- A plain value is read back from its text. -/
theorem Plain.ofText?_compact {json : Json} (plain : json.Plain) :
    ofText? json.compact = some json :=
  plain.ofText?_of_scans plain.scans_compact

/-- A plain value is read back from its text over several lines. -/
theorem Plain.ofText?_pretty {json : Json} (plain : json.Plain) :
    ofText? json.pretty = some json :=
  plain.ofText?_of_scans (plain.scans_pretty 0)

end SchemaGraph.Json
