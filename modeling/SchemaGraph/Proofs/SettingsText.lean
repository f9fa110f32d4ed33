import SchemaGraph.Proofs.WrittenToml
import SchemaGraph.Settings.Toml

/-!
# Settings are written and read back

Settings are written out as five statements, and the table that these build up is read as the same
settings. So no setting is lost, whatever characters the names are made of. Settings with a blob
type that is a primitive type as well are read as far as this is known, and then refused.
-/

namespace SchemaGraph.Settings

/-! ### Written values -/

/-- The line of a name in a list of several names. -/
def nameLine (name : String) : List Char :=
  "    ".toList ++ nameChars name ++ [',', '\n']

/-- Several names stand on a line each. -/
theorem namesChars_of_several (first second : String) (rest : List String) :
    namesChars (first :: second :: rest) =
      '[' :: '\n' :: ((first :: second :: rest).flatMap nameLine ++ [']']) :=
  rfl

/-- A written name begins with a character that neither fills space nor closes a list. -/
theorem nameChars_eq_cons (name : String) :
    ∃ first more, nameChars name = first :: more ∧ Toml.isFiller first = false ∧ first ≠ ']' := by
  obtain ⟨first, more, written, isQuote⟩ := Toml.Quoted.write_eq_cons name.toList
  refine ⟨first, more, written, ?_⟩
  simp only [Toml.Quoted.isQuote, Bool.or_eq_true, beq_iff_eq] at isQuote
  obtain rfl | rfl := isQuote <;> decide

/-- Nothing is passed over in front of a name. -/
theorem dropFiller_nameChars (name : String) (behind : List Char) :
    Toml.dropFiller (nameChars name ++ behind) = nameChars name ++ behind := by
  obtain ⟨first, more, written, visible, -⟩ := nameChars_eq_cons name
  rw [written, List.cons_append, Toml.dropFiller_of_stops (Text.stops_cons.mpr visible)]

/-- Nothing is passed over in front of a punctuation mark. -/
theorem dropFiller_mark {c : Char} (mark : Toml.isFiller c = false) (behind : List Char) :
    Toml.dropFiller (c :: behind) = c :: behind :=
  Toml.dropFiller_of_stops (Text.stops_cons.mpr mark)

section Items

variable {level bound : Nat} {text behind rest : List Char} {name : String}

/-- An item that is a name does not begin with a closing bracket and is read as the name. -/
private theorem exists_opening (level : Nat)
    (front : Toml.dropFiller text = nameChars name ++ behind)
    (stops : Text.Stops Toml.Quoted.isQuote behind) :
    ∃ first more, Toml.dropFiller text = first :: more ∧ first ≠ ']' ∧
      Toml.valueWithin level (first :: more) = some (.string name, behind) := by
  obtain ⟨first, more, written, -, opening⟩ := nameChars_eq_cons name
  have read : Toml.valueWithin level (nameChars name ++ behind) = some (.string name, behind) :=
    Toml.valueWithin_write level name stops
  rw [written, List.cons_append] at front read
  exact ⟨first, more ++ behind, front, opening, read⟩

/-- A name with a comma behind it is read as one item in front of more of them. -/
theorem itemsWithin_comma (front : Toml.dropFiller text = nameChars name ++ behind)
    (stops : Text.Stops Toml.Quoted.isQuote behind)
    (comma : Toml.dropFiller behind = ',' :: rest) :
    Toml.itemsWithin (Toml.valueWithin level) (bound + 1) text =
      (Toml.itemsWithin (Toml.valueWithin level) bound rest).map
        fun (items, rest) => (.string name :: items, rest) := by
  obtain ⟨first, more, front, opening, read⟩ := exists_opening level front stops
  simp [Toml.itemsWithin, front, read, comma, opening]

/-- A name with the closing bracket behind it is read as the last item. -/
theorem itemsWithin_close (front : Toml.dropFiller text = nameChars name ++ behind)
    (stops : Text.Stops Toml.Quoted.isQuote behind)
    (close : Toml.dropFiller behind = ']' :: rest) :
    Toml.itemsWithin (Toml.valueWithin level) (bound + 1) text =
      some ([.string name], rest) := by
  obtain ⟨first, more, front, opening, read⟩ := exists_opening level front stops
  simp [Toml.itemsWithin, front, read, close, opening]

end Items

/-- The items of an array are read back as the names on its lines. -/
theorem itemsWithin_nameLine (level : Nat) (names : List String) (behind : List Char) {bound : Nat}
    (enough : names.length < bound) :
    Toml.itemsWithin (Toml.valueWithin level) bound
        ('\n' :: (names.flatMap nameLine ++ ']' :: behind)) =
      some (names.map .string, behind) := by
  induction names generalizing bound with
  | nil =>
    obtain ⟨bound, rfl⟩ := Nat.exists_eq_add_one_of_ne_zero (show bound ≠ 0 by omega)
    have closing := dropFiller_mark (c := ']') (by decide) behind
    simp [Toml.itemsWithin, Toml.dropFiller_newLine, closing]
  | cons name rest ih =>
    obtain ⟨bound, rfl⟩ := Nat.exists_eq_add_one_of_ne_zero (show bound ≠ 0 by omega)
    have items := ih (show rest.length < bound by simpa using enough)
    have front : Toml.dropFiller ('\n' :: ((name :: rest).flatMap nameLine ++ ']' :: behind)) =
        nameChars name ++ ',' :: '\n' :: (rest.flatMap nameLine ++ ']' :: behind) := by
      simp [nameLine, Toml.dropFiller_newLine, Toml.dropFiller_space, dropFiller_nameChars]
    have comma := dropFiller_mark (c := ',') (by decide)
    rw [itemsWithin_comma front (Text.stops_cons.mpr (by decide)) (comma _)]
    simp [items]

/-- The lines are at least as many as the names, so there is enough room to read them. -/
theorem length_le_nameLine (names : List String) :
    names.length ≤ (names.flatMap nameLine).length := by
  induction names with
  | nil => exact Nat.le_refl _
  | cons name rest ih =>
    simp only [List.flatMap_cons, nameLine, List.length_append, List.length_cons] at ih ⊢
    omega

/-- A list of names is read back, in front of any text. -/
theorem value?_namesChars (names : List String) (behind : List Char) :
    Toml.value? (namesChars names ++ behind) = some (.array (names.map .string), behind) := by
  have closing := dropFiller_mark (c := ']') (by decide) behind
  have array (text : List Char) : Toml.value? ('[' :: text) =
      Toml.array? (Toml.valueWithin 78) text := rfl
  match names with
  | [] => simp [namesChars, array, Toml.array?, Toml.itemsWithin, closing]
  | [name] =>
    have front := dropFiller_nameChars name (']' :: behind)
    have stops : Text.Stops Toml.Quoted.isQuote (']' :: behind) := Text.stops_cons.mpr (by decide)
    simp [namesChars, array, Toml.array?, itemsWithin_close front stops closing]
  | first :: second :: rest =>
    have shorter := length_le_nameLine (first :: second :: rest)
    rw [namesChars_of_several, List.cons_append, List.cons_append, List.append_assoc, array,
      List.singleton_append, Toml.array?, itemsWithin_nameLine]
    · rfl
    · simp only [List.length_cons, List.length_append] at shorter ⊢
      omega

/-! ### Statements -/

/-- The statements that settings are written out as. -/
def statements (settings : Settings) : List Toml.Statement :=
  [.assignment ⟨[], "camel_case_keys"⟩ (.boolean settings.camelCaseKeys),
    .assignment ⟨[], "quiet"⟩ (.boolean settings.quiet),
    .header ⟨[], "types"⟩,
    .assignment ⟨[], "primitives"⟩ (.array (settings.primitives.map .string)),
    .assignment ⟨[], "blob"⟩ (.string settings.blob)]

/-- The entries of the table that the statements build up. -/
def entries (settings : Settings) : Toml.Table :=
  [("camel_case_keys", .boolean settings.camelCaseKeys),
    ("quiet", .boolean settings.quiet),
    ("types", .table .headed
      [("primitives", .array (settings.primitives.map .string)),
        ("blob", .string settings.blob)])]

/-- A switch is set on a line. -/
theorem lines_switch {name : String} (bare : Toml.IsBareName name) (value : Bool) :
    Toml.Statement.Lines (name.toList ++ ' ' :: '=' :: ' ' :: switchChars value ++ ['\n'])
      [.assignment ⟨[], name⟩ (.boolean value)] := by
  refine Toml.Statement.lines_assignment bare ?_ (Toml.valueWithin_boolean Toml.mostLevels value)
  cases value <;> exact Text.stops_cons.mpr (by decide)

/-- A name is set on a line, which may go on over several lines of the text. -/
theorem lines_name {name : String} (bare : Toml.IsBareName name) (value : String) :
    Toml.Statement.Lines (name.toList ++ ' ' :: '=' :: ' ' :: nameChars value ++ ['\n'])
      [.assignment ⟨[], name⟩ (.string value)] := by
  refine Toml.Statement.lines_assignment bare ?_ fun behind =>
    Toml.valueWithin_write Toml.mostLevels value (Text.stops_cons.mpr (by decide))
  obtain ⟨first, more, written, visible, -⟩ := nameChars_eq_cons value
  rw [written]
  exact (Text.stops_cons.mpr visible).mono Toml.isFiller_of_isSpace

/-- A list of names is set on a line, which goes on over several lines of the text if there are
several names. -/
theorem lines_names {name : String} (bare : Toml.IsBareName name) (values : List String) :
    Toml.Statement.Lines (name.toList ++ ' ' :: '=' :: ' ' :: namesChars values ++ ['\n'])
      [.assignment ⟨[], name⟩ (.array (values.map .string))] := by
  refine Toml.Statement.lines_assignment bare ?_ fun behind =>
    value?_namesChars values ('\n' :: behind)
  match values with
  | [] => exact Text.stops_cons.mpr (by decide)
  | [_] => exact Text.stops_cons.mpr (by decide)
  | _ :: _ :: _ => exact Text.stops_cons.mpr (by decide)

/-- Settings are written as their statements, line by line. -/
theorem lines_chars (settings : Settings) :
    Toml.Statement.Lines settings.chars settings.statements := by
  have switches :=
    (lines_switch (show Toml.IsBareName "camel_case_keys" by decide) settings.camelCaseKeys).append
      (lines_switch (show Toml.IsBareName "quiet" by decide) settings.quiet)
  have header := Toml.Statement.lines_blank.append
    (Toml.Statement.lines_header (show Toml.IsBareName "types" by decide))
  have types :=
    (lines_names (show Toml.IsBareName "primitives" by decide) settings.primitives).append
      (lines_name (show Toml.IsBareName "blob" by decide) settings.blob)
  unfold chars statements
  simpa using switches.append (header.append types)

/-- The statements build up the entries, without a clash. -/
theorem extend_statements (settings : Settings) :
    settings.statements.foldlM Toml.Draft.extend? ⟨[], []⟩ =
      some ⟨settings.entries, ["types"]⟩ := by
  rfl

/-- The text of settings is that of a table of their entries. -/
theorem tableOfText?_text (settings : Settings) :
    Toml.Table.ofText? settings.text = some settings.entries := by
  have noMark : Toml.dropMark settings.text.toList = settings.chars := by
    rw [text, String.toList_ofList]
    rfl
  simp [Toml.Table.ofText?, noMark, settings.lines_chars.readAll?, settings.extend_statements]

/-- A list of names is read back. -/
theorem nameItems?_map (names : List String) : nameItems? (names.map .string) = some names := by
  induction names with
  | nil => rfl
  | cons name rest ih => simp [nameItems?, ih]

/-- Settings are read back from their entries. -/
theorem ofTable?_entries (settings : Settings) : ofTable? settings.entries = some settings := by
  simp [ofTable?, entries, Toml.Table.find?, switch?, types?, builtins?, names?, name?,
    nameItems?_map]

/-- Settings whose blob type is no primitive type can be loaded from their text. -/
theorem ofText_text {settings : Settings} (apart : settings.blob ∉ settings.primitives) :
    ofText settings.text = .ok settings := by
  simp [ofText, settings.tableOfText?_text, settings.ofTable?_entries, apart]

end SchemaGraph.Settings

namespace SchemaGraph

/-- Settings are read back from their text, unless the blob type is a primitive type, in which case
they are refused for this reason. -/
theorem settings_reads_back (settings : Settings) :
    Settings.ofText settings.text =
      if settings.primitives.contains settings.blob then .error (.blobIsPrimitive settings.blob)
      else .ok settings := by
  simp [Settings.ofText, settings.tableOfText?_text, settings.ofTable?_entries]

end SchemaGraph
