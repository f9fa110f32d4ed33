import SchemaGraph.Proofs.QuotedStrings
import SchemaGraph.Toml.Document

/-!
# Written lines of TOML are read back

The lines of a text are read one by one. An assignment of a value to a bare name gives the statement
back if the value is read back in front of the end of its line, and a header with a bare name always
does. A value that is a string is read back in front of any text that does not begin with a quote.
-/

namespace SchemaGraph.Toml

/-! ### Layout -/

/-- The characters that begin what is passed over between the items of an array. -/
def isFiller (c : Char) : Bool :=
  isSpace c || c == '\n' || c == '\r' || c == '#'

/-- A space is a filler. -/
theorem isFiller_of_isSpace (c : Char) (space : isSpace c = true) : isFiller c = true := by
  simp [isFiller, space]

/-- Where no filler comes first there is neither space nor comment to drop. -/
theorem dropComment_of_stops {text : List Char} (stops : Text.Stops isFiller text) :
    dropComment (dropSpaces text) = text := by
  rw [dropSpaces, (stops.mono isFiller_of_isSpace).dropWhile_eq]
  unfold dropComment
  split
  · simp [isFiller] at stops
  · rfl

/-- A text that stops a filler does not begin with a line break. -/
theorem newLine?_of_stops {text : List Char} (stops : Text.Stops isFiller text) :
    newLine? text = none := by
  unfold newLine?
  split
  · simp [isFiller] at stops
  · simp [isFiller] at stops
  · rfl

/-- Nothing is dropped from a text that stops a filler. -/
theorem dropFiller_of_stops {text : List Char} (stops : Text.Stops isFiller text) :
    dropFiller text = text := by
  unfold dropFiller
  split
  · next ended => simp [dropComment_of_stops stops, newLine?_of_stops stops] at ended
  · exact dropComment_of_stops stops

/-- A line break is dropped like a filler. -/
theorem dropFiller_newLine (text : List Char) : dropFiller ('\n' :: text) = dropFiller text := by
  rw [dropFiller]
  rfl

/-- A space is dropped as filler. -/
theorem dropFiller_space (text : List Char) : dropFiller (' ' :: text) = dropFiller text := by
  have same : dropSpaces (' ' :: text) = dropSpaces text := rfl
  rw [dropFiller.eq_def, dropFiller.eq_def text, same]

/-- A line does not end where something is left that is no filler. -/
theorem endLine?_of_stops {c : Char} {rest : List Char} (stops : isFiller c = false) :
    endLine? (c :: rest) = none := by
  have first : Text.Stops isFiller (c :: rest) := Text.stops_cons.mpr stops
  simp [endLine?, dropComment_of_stops first, newLine?_of_stops first]

/-! ### Names -/

/-- The name needs no quotes. -/
def IsBareName (name : String) : Prop :=
  name.toList ≠ [] ∧ ∀ c ∈ name.toList, isBare c = true

instance (name : String) : Decidable (IsBareName name) :=
  decidable_of_iff (name.toList ≠ [] ∧ name.toList.all isBare = true) (by simp [IsBareName])

/-- A filler is no part of a name. -/
theorem not_bare_of_isFiller {c : Char} (filler : isFiller c = true) : isBare c = false := by
  simp only [isFiller, isSpace, Bool.or_eq_true, beq_iff_eq] at filler
  obtain (((rfl | rfl) | rfl) | rfl) | rfl := filler <;> decide

/-- A bare name begins with a character of its own. -/
theorem IsBareName.eq_cons {name : String} (bare : IsBareName name) :
    ∃ first more, name.toList = first :: more ∧ isBare first = true ∧ isFiller first = false := by
  obtain ⟨written, inside⟩ := bare
  cases chars : name.toList with
  | nil => exact absurd chars written
  | cons first more =>
    have bareFirst := inside first (chars ▸ List.mem_cons_self)
    refine ⟨first, more, rfl, bareFirst, Bool.eq_false_iff.mpr fun filler => ?_⟩
    simp [not_bare_of_isFiller filler] at bareFirst

/-- Nothing is dropped in front of a bare name. -/
theorem IsBareName.dropSpaces_append {name : String} (bare : IsBareName name)
    (behind : List Char) : dropSpaces (name.toList ++ behind) = name.toList ++ behind := by
  obtain ⟨first, more, chars, -, noFiller⟩ := bare.eq_cons
  have starts : Text.Stops isFiller (first :: more ++ behind) := Text.stops_cons.mpr noFiller
  rw [chars, dropSpaces, (starts.mono isFiller_of_isSpace).dropWhile_eq]

/-- A bare name is not quoted. -/
theorem not_isQuote_of_isBare {c : Char} (bare : isBare c = true) : c ≠ '"' ∧ c ≠ '\'' := by
  constructor <;> rintro rfl <;> simp [isBare] at bare

/-- A bare name is read up to the first character that cannot be part of it. -/
theorem name?_append {name : String} (bare : IsBareName name) {behind : List Char}
    (stops : Text.Stops isBare behind) :
    name? (name.toList ++ behind) = some (name.toList, behind) := by
  have run := Text.takeWhile_run bare.2 stops
  have rest := Text.dropWhile_run bare.2 stops
  obtain ⟨first, more, chars, bareFirst, -⟩ := bare.eq_cons
  obtain ⟨noDouble, noSingle⟩ := not_isQuote_of_isBare bareFirst
  rw [chars, List.cons_append] at run rest ⊢
  unfold name?
  split
  · next same => exact absurd (List.cons.inj same).1 noDouble
  · next same => exact absurd (List.cons.inj same).1 noSingle
  · simp [run, rest]

/-- A bare name is read back as a key, and the blanks behind it are passed over. -/
theorem key?_append {name : String} (bare : IsBareName name) {behind : List Char}
    (stops : Text.Stops isBare behind) (last : Text.Stops (· == '.') (dropSpaces behind)) :
    key? (name.toList ++ behind) = some (⟨[], name⟩, dropSpaces behind) := by
  rw [key?, mostNames, keyWithin, bare.dropSpaces_append, name?_append bare stops]
  dsimp only
  split
  · next same => simp [same] at last
  · simp [String.ofList_toList]

/-! ### Values -/

/-- A written text is read back as a value. -/
theorem valueWithin_write (level : Nat) (text : String) {behind : List Char}
    (stops : Text.Stops Quoted.isQuote behind) :
    valueWithin level (Quoted.write text.toList ++ behind) = some (string text, behind) := by
  have read := Quoted.read?_write text.toList stops
  obtain ⟨first, more, written, isQuote⟩ := Quoted.write_eq_cons text.toList
  simp only [Quoted.isQuote, Bool.or_eq_true, beq_iff_eq] at isQuote
  rw [written, List.cons_append] at read ⊢
  obtain rfl | rfl := isQuote <;> simp [valueWithin, string?, read]

/-- A boolean is read back as a value, up to the line break behind it. -/
theorem valueWithin_boolean (level : Nat) (value : Bool) (behind : List Char) :
    valueWithin level ((if value then "true".toList else "false".toList) ++ '\n' :: behind) =
      some (boolean value, '\n' :: behind) := by
  cases value
  · rw [if_neg Bool.false_ne_true, valueWithin.eq_def]
    rfl
  · rw [if_pos rfl, valueWithin.eq_def]
    rfl

/-! ### Lines -/

namespace Statement

/-- A larger bound reads the same statements. -/
theorem readWithin_mono {bound more : Nat} (larger : bound ≤ more) {text : List Char}
    {statements : List Statement} (read : readWithin bound text = some statements) :
    readWithin more text = some statements := by
  fun_induction readWithin bound text generalizing more statements with
  | case1 => simpa [readWithin] using read
  | case2 => simp at read
  | case3 bound text written rest blank ih =>
    obtain ⟨more, rfl⟩ := Nat.exists_eq_add_one_of_ne_zero (show more ≠ 0 by omega)
    rw [readWithin, blank]
    · exact ih (by omega) read
    · exact written
  | case4 => simp at read
  | case5 bound text written line statement behind found rest ended ih =>
    obtain ⟨more, rfl⟩ := Nat.exists_eq_add_one_of_ne_zero (show more ≠ 0 by omega)
    obtain ⟨_, readRest, rfl⟩ := Option.map_eq_some_iff.mp read
    rw [readWithin, line, found]
    · simp [ended, ih (show bound ≤ more by omega) readRest]
    · exact written
  | case6 => simp at read

/-- The text is read as the statements, in front of any text that can be read. -/
def Lines (text : List Char) (statements : List Statement) : Prop :=
  ∀ bound behind more, readWithin bound behind = some more →
    readWithin (bound + text.length) (text ++ behind) = some (statements ++ more)

/-- Lines are read as their statements. -/
theorem Lines.readAll? {text : List Char} {statements : List Statement}
    (lines : Lines text statements) : readAll? text = some statements := by
  have whole := lines 0 [] [] (by simp [readWithin])
  simpa [Statement.readAll?] using whole

/-- Lines may be put below others. -/
theorem Lines.append {front back : List Char} {first second : List Statement}
    (linesFront : Lines front first) (linesBack : Lines back second) :
    Lines (front ++ back) (first ++ second) := by
  intro bound behind more read
  have whole := linesFront _ _ _ (linesBack bound behind more read)
  rw [List.length_append, List.append_assoc, List.append_assoc, Nat.add_comm front.length,
    ← Nat.add_assoc]
  exact whole

/-- A blank line states nothing. -/
theorem lines_blank : Lines ['\n'] [] := by
  intro bound behind more read
  rw [List.cons_append, List.length_singleton, readWithin]
  · exact read
  · simp

/-- A line with one statement is read as this statement. -/
theorem lines_of_read? {c : Char} {text : List Char} {statement : Statement}
    (visible : isFiller c = false)
    (reads : ∀ behind, read? (c :: (text ++ '\n' :: behind)) = some (statement, '\n' :: behind)) :
    Lines (c :: (text ++ ['\n'])) [statement] := by
  intro bound behind more read
  have ended : endLine? ('\n' :: behind) = some behind := rfl
  have same := readWithin_mono (Nat.le_add_right bound (text ++ ['\n']).length) read
  rw [List.length_cons, ← Nat.add_assoc, List.cons_append, List.append_assoc, List.singleton_append,
    readWithin, endLine?_of_stops visible, reads]
  · simp only [ended, same]
    rfl
  · simp

/-- A header with a bare name is read. -/
theorem lines_header {name : String} (bare : IsBareName name) :
    Lines ('[' :: (name.toList ++ [']', '\n'])) [.header ⟨[], name⟩] := by
  have line : name.toList ++ [']', '\n'] = name.toList ++ [']'] ++ ['\n'] := by simp
  rw [line]
  refine lines_of_read? (by decide) fun behind => ?_
  have key : key? (name.toList ++ ']' :: '\n' :: behind) =
      some (⟨[], name⟩, ']' :: '\n' :: behind) :=
    key?_append bare (Text.stops_cons.mpr (by decide)) (Text.stops_cons.mpr (by decide))
  obtain ⟨first, more, chars, bareFirst, -⟩ := bare.eq_cons
  have single : first ≠ '[' := by
    rintro rfl
    simp [isBare] at bareFirst
  rw [List.append_assoc, List.singleton_append]
  rw [chars, List.cons_append] at key ⊢
  simp [read?, dropSpaces, isSpace, single, key]

/-- An assignment to a bare name is read if the value is read at the end of its line. -/
theorem lines_assignment {name : String} (bare : IsBareName name) {written : List Char}
    {value : Toml} (starts : Text.Stops isSpace written)
    (reads : ∀ behind, value? (written ++ '\n' :: behind) = some (value, '\n' :: behind)) :
    Lines (name.toList ++ ' ' :: '=' :: ' ' :: written ++ ['\n'])
      [.assignment ⟨[], name⟩ value] := by
  have dropped (behind : List Char) :
      dropSpaces (' ' :: (written ++ '\n' :: behind)) = written ++ '\n' :: behind := by
    have stops : Text.Stops isSpace (written ++ '\n' :: behind) := by
      cases written with
      | nil => exact Text.stops_cons.mpr (by decide)
      | cons _ _ => exact Text.stops_cons.mpr (Text.stops_cons.mp starts)
    exact stops.dropWhile_eq
  have assigned (behind : List Char) :
      assignment? value? (name.toList ++ ' ' :: '=' :: ' ' :: (written ++ '\n' :: behind)) =
        some ((⟨[], name⟩, value), '\n' :: behind) := by
    have key : key? (name.toList ++ ' ' :: '=' :: ' ' :: (written ++ '\n' :: behind)) =
        some (⟨[], name⟩, '=' :: ' ' :: (written ++ '\n' :: behind)) :=
      key?_append bare (Text.stops_cons.mpr (by decide)) (Text.stops_cons.mpr (by decide))
    simp [assignment?, key, dropped, reads]
  obtain ⟨first, more, chars, bareFirst, noFiller⟩ := bare.eq_cons
  have noHeader : first ≠ '[' := by
    rintro rfl
    simp [isBare] at bareFirst
  have line : name.toList ++ ' ' :: '=' :: ' ' :: written ++ ['\n'] =
      first :: (more ++ ' ' :: '=' :: ' ' :: written ++ ['\n']) := by
    rw [chars]
    rfl
  rw [line]
  refine lines_of_read? noFiller fun behind => ?_
  have front := bare.dropSpaces_append (' ' :: '=' :: ' ' :: (written ++ '\n' :: behind))
  have found := assigned behind
  rw [chars] at front found
  rw [List.append_assoc]
  simp only [List.cons_append] at front found ⊢
  simp [read?, front, found, noHeader]

end Statement

end SchemaGraph.Toml
