import Mathlib.Data.List.Nodup
import SchemaGraph.Proofs.LiteralGrammar

/-!
# The parameters of an option

A single argument that is no pair is decoded under the name `value`. In any other argument list the
pairs of a name and a value are decoded under their names, and whatever else stands among them is
passed over. The first text that is no literal is what the option is refused for, even if a later
pair has the same name; if there is none, each name has the literal of its last pair.

A pair may have the name `value` as well. Its literal then passes for a positional argument.
-/

namespace SchemaGraph

/-- The argument is a pair of a name and the text of a value. -/
def Node.IsPair (argument : Node) (name text : String) : Prop :=
  argument.kind = .pair ∧
    ∃ key value, argument.children = [key, value] ∧ key.text = name ∧ value.text = text

namespace PropertyOption

/-- The argument list is a single argument that is no pair. -/
def IsPositional (arguments : List Node) (argument : Node) : Prop :=
  arguments = [argument] ∧ argument.kind ≠ .pair

/-- The name and the text of the value of a pair with exactly two children. -/
def pairText? (argument : Node) : Option (String × String) :=
  if argument.kind = .pair then
    match argument.children with
    | [key, value] => some (key.text, value.text)
    | _ => none
  else none

/-- The texts that an argument list has to decode, in order, with the names that they are decoded
under. -/
def texts : List Node → List (String × String)
  | [argument] =>
    if argument.kind = .pair then [argument].filterMap pairText? else [("value", argument.text)]
  | arguments => arguments.filterMap pairText?

/-- The last text of a name. -/
def lastText? (texts : List (String × String)) (name : String) : Option String :=
  (texts.filter (·.1 == name)).getLast?.map Prod.snd

/-- The text is no literal, and all texts in front of it are. -/
def FirstRejected (texts : List (String × String)) (text : String) : Prop :=
  ∃ front name behind, texts = front ++ (name, text) :: behind ∧
    (∀ earlier ∈ front, ∃ literal, decode earlier.2 = .ok literal) ∧
    ∀ literal, decode text ≠ .ok literal

/-- Exactly the pairs have a name and a text. -/
theorem pairText?_eq_some_iff {argument : Node} {name text : String} :
    pairText? argument = some (name, text) ↔ argument.IsPair name text := by
  unfold pairText? Node.IsPair
  by_cases kind : argument.kind = .pair
  · rw [if_pos kind]
    split
    · rename_i children
      simp [kind, children]
    · rename_i others
      refine ⟨fun none => by simp at none, fun pair => ?_⟩
      obtain ⟨_, key, value, children, _⟩ := pair
      exact absurd children (others key value)
  · simp [kind]

/-- The text of a pair is that of its value. -/
theorem pairText?_eq_map_namedArgument? (argument : Node) :
    pairText? argument =
      (namedArgument? argument).map fun (name, value) => (name, value.text) := by
  unfold pairText? namedArgument?
  cases kind : argument.kind <;> simp only [reduceCtorEq, if_true, if_false, Option.map_none]
  split <;> simp_all

/-- The texts are those of a positional argument or of the pairs. -/
theorem mem_texts_iff {arguments : List Node} {name text : String} :
    (name, text) ∈ texts arguments ↔
      (∃ argument, IsPositional arguments argument ∧ name = "value" ∧ text = argument.text) ∨
        ∃ argument ∈ arguments, argument.IsPair name text := by
  have pairs : (name, text) ∈ arguments.filterMap pairText? ↔
      ∃ argument ∈ arguments, argument.IsPair name text := by
    simp only [List.mem_filterMap, pairText?_eq_some_iff]
  match arguments with
  | [] => simp [texts, IsPositional]
  | [argument] =>
    rw [texts]
    by_cases kind : argument.kind = .pair
    · rw [if_pos kind, pairs]
      simp [IsPositional, kind]
    · simp [IsPositional, kind, Node.IsPair]
  | _ :: _ :: _ =>
    rw [texts, pairs]
    · simp [IsPositional]
    · simp

/-- A text in front counts only if no later one has its name. -/
theorem lastText?_cons (name text : String) (rest : List (String × String)) (key : String) :
    lastText? ((name, text) :: rest) key =
      (lastText? rest key).or (if name = key then some text else none) := by
  rw [lastText?, List.filter_cons, lastText?]
  by_cases same : name = key
  · rw [if_pos (by simpa using same), List.getLast?_cons, if_pos same]
    cases (rest.filter (·.1 == key)).getLast? <;> rfl
  · rw [if_neg (by simpa using same), if_neg same, Option.or_none]

/-- The last text of a name is one of the texts. -/
theorem mem_of_lastText? {texts : List (String × String)} {name text : String}
    (last : lastText? texts name = some text) : (name, text) ∈ texts := by
  obtain ⟨⟨other, _⟩, found, rfl⟩ := Option.map_eq_some_iff.mp last
  obtain ⟨listed, named⟩ := List.mem_filter.mp (List.mem_of_getLast? found)
  obtain rfl : other = name := by simpa using named
  exact listed

/-- A name has a last text exactly if it has any. -/
theorem exists_lastText?_iff {texts : List (String × String)} {name : String} :
    (∃ text, lastText? texts name = some text) ↔ ∃ text, (name, text) ∈ texts := by
  refine ⟨fun ⟨text, last⟩ => ⟨text, mem_of_lastText? last⟩, fun ⟨text, listed⟩ => ?_⟩
  cases last : lastText? texts name with
  | some later => exact ⟨later, rfl⟩
  | none =>
    simp only [lastText?, Option.map_eq_none_iff, List.getLast?_eq_none_iff,
      List.filter_eq_nil_iff] at last
    exact absurd (by simp) (last _ listed)

section FirstRejected

variable {name text later : String} {rest : List (String × String)}

/-- Behind a literal the first text that is rejected is the first one of the rest. -/
theorem firstRejected_cons_of_decode {literal : Literal} (decoded : decode text = .ok literal) :
    FirstRejected ((name, text) :: rest) later ↔ FirstRejected rest later := by
  constructor
  · rintro ⟨front, key, behind, split, accepted, rejected⟩
    cases front with
    | nil =>
      obtain ⟨⟨rfl, rfl⟩, rfl⟩ := by simpa using split
      exact absurd decoded (rejected literal)
    | cons first front =>
      obtain ⟨rfl, rfl⟩ := List.cons.inj split
      exact ⟨front, key, behind, rfl, (List.forall_mem_cons.mp accepted).2, rejected⟩
  · rintro ⟨front, key, behind, rfl, accepted, rejected⟩
    exact ⟨(name, text) :: front, key, behind, rfl,
      List.forall_mem_cons.mpr ⟨⟨literal, decoded⟩, accepted⟩, rejected⟩

/-- A text that is no literal is the first one that is rejected. -/
theorem firstRejected_cons_of_rejected (rejected : ∀ literal, decode text ≠ .ok literal) :
    FirstRejected ((name, text) :: rest) later ↔ later = text := by
  constructor
  · rintro ⟨front, key, behind, split, accepted, _⟩
    cases front with
    | nil =>
      obtain ⟨⟨rfl, rfl⟩, rfl⟩ := by simpa using split
      rfl
    | cons first front =>
      obtain ⟨rfl, rfl⟩ := List.cons.inj split
      obtain ⟨literal, decoded⟩ := accepted _ List.mem_cons_self
      exact absurd decoded (rejected literal)
  · rintro rfl
    exact ⟨[], name, rest, rfl, by simp, rejected⟩

end FirstRejected

/-! ### Parameters are set -/

/-- A parameter is looked up from the front. -/
private theorem lookup_cons_eq (name key : String) (value : Literal)
    (rest : List (String × Literal)) :
    ((name, value) :: rest).lookup key = if name = key then some value else rest.lookup key := by
  rw [List.lookup_cons]
  by_cases same : name = key
  · simp [same]
  · rw [if_neg same, beq_eq_false_iff_ne.mpr (Ne.symm same)]

/-- Setting a parameter changes its value and that of no other one. -/
theorem lookup_setParameter (name key : String) (value : Literal)
    (parameters : List (String × Literal)) :
    (setParameter name value parameters).lookup key =
      if name = key then some value else parameters.lookup key := by
  induction parameters with
  | nil => rw [setParameter, lookup_cons_eq]
  | cons entry rest ih =>
    obtain ⟨other, old⟩ := entry
    rw [setParameter]
    by_cases here : other = name
    · rw [if_pos here, lookup_cons_eq, lookup_cons_eq, here]
      by_cases same : name = key <;> simp [same]
    · rw [if_neg here, lookup_cons_eq, lookup_cons_eq, ih]
      by_cases same : other = key
      · rw [if_pos same, if_neg fun wrong => here (same.trans wrong.symm), if_pos same]
      · rw [if_neg same, if_neg same]

/-- To set a parameter adds its name and no other. -/
theorem mem_map_setParameter {name key : String} {value : Literal}
    {parameters : List (String × Literal)} :
    key ∈ (setParameter name value parameters).map Prod.fst ↔
      key = name ∨ key ∈ parameters.map Prod.fst := by
  induction parameters with
  | nil => simp [setParameter]
  | cons entry rest ih =>
    rw [setParameter]
    split
    · rename_i here
      simp [here]
    · rw [List.map_cons, List.mem_cons, ih, List.map_cons, List.mem_cons, or_left_comm]

/-- No parameter is there twice after one is set. -/
theorem nodup_setParameter {parameters : List (String × Literal)}
    (distinct : (parameters.map Prod.fst).Nodup) (name : String) (value : Literal) :
    ((setParameter name value parameters).map Prod.fst).Nodup := by
  induction parameters with
  | nil => simp [setParameter]
  | cons entry rest ih =>
    rw [List.map_cons, List.nodup_cons] at distinct
    rw [setParameter]
    split
    · rename_i here
      rw [List.map_cons, List.nodup_cons, ← here]
      exact distinct
    · rename_i other
      rw [List.map_cons, List.nodup_cons, mem_map_setParameter, not_or]
      exact ⟨⟨other, distinct.1⟩, ih distinct.2⟩

/-- Set the parameter of each name to the literal of its text, up to the first text that is no
literal. -/
def setTexts : List (String × String) → List (String × Literal) →
    Except CompileError (List (String × Literal))
  | [], parameters => .ok parameters
  | (name, text) :: rest, parameters =>
    match decode text with
    | .ok literal => setTexts rest (setParameter name literal parameters)
    | .error error => .error error

/-- What is no pair of two is passed over. -/
theorem setPairs_eq (arguments : List Node) (parameters : List (String × Literal)) :
    setPairs arguments parameters = setTexts (arguments.filterMap pairText?) parameters := by
  induction arguments generalizing parameters with
  | nil => rfl
  | cons argument rest ih =>
    rw [setPairs, List.filterMap_cons, pairText?_eq_map_namedArgument?]
    cases namedArgument? argument with
    | none => exact ih parameters
    | some named =>
      simp only [Option.map_some, setTexts]
      cases decode named.2.text with
      | ok literal => exact ih _
      | error error => rfl

/-- The parameters are what the relevant texts set, one after the other. -/
theorem parametersOf_eq (arguments : List Node) :
    parametersOf arguments = setTexts (texts arguments) [] := by
  match arguments with
  | [] => rfl
  | [argument] =>
    rw [parametersOf, texts]
    by_cases kind : argument.kind = .pair
    · rw [if_pos kind, if_pos kind, setPairs_eq]
    · rw [if_neg kind, if_neg kind, setTexts]
      cases decode argument.text <;> rfl
  | _ :: _ :: _ => exact setPairs_eq _ _

section SetTexts

variable {texts : List (String × String)} {parameters done : List (String × Literal)}

/-- The texts are literals in order, up to the end or to the first one that is rejected. -/
theorem setTexts_eq_error_iff {error : CompileError} :
    setTexts texts parameters = .error error ↔
      ∃ text, FirstRejected texts text ∧ error = .literalParse text := by
  induction texts generalizing parameters with
  | nil => simp [setTexts, FirstRejected]
  | cons entry rest ih =>
    obtain ⟨name, text⟩ := entry
    rw [setTexts]
    cases decoded : decode text with
    | ok literal => simp only [ih, firstRejected_cons_of_decode decoded]
    | error other =>
      obtain ⟨_, rfl⟩ := decode_eq_error_iff.mp decoded
      have rejected : ∀ literal, decode text ≠ .ok literal := by simp [decoded]
      simp [firstRejected_cons_of_rejected rejected, eq_comm]

/-- Texts that can all be decoded are all set. -/
theorem exists_setTexts_eq_ok
    (accepted : ∀ entry ∈ texts, ∃ literal, decode entry.2 = .ok literal) :
    ∃ done, setTexts texts parameters = .ok done := by
  cases result : setTexts texts parameters with
  | ok done => exact ⟨done, rfl⟩
  | error error =>
    obtain ⟨text, ⟨front, name, behind, rfl, _, rejected⟩, _⟩ := setTexts_eq_error_iff.mp result
    obtain ⟨literal, decoded⟩ := accepted (name, text) (by simp)
    exact absurd decoded (rejected literal)

/-- If the texts are set, all of them can be decoded. -/
theorem exists_decode_of_setTexts (success : setTexts texts parameters = .ok done) :
    ∀ entry ∈ texts, ∃ literal, decode entry.2 = .ok literal := by
  induction texts generalizing parameters with
  | nil => simp
  | cons entry rest ih =>
    rw [setTexts] at success
    split at success
    · rename_i literal decoded
      exact List.forall_mem_cons.mpr ⟨⟨literal, decoded⟩, ih success⟩
    · simp at success

/-- No parameter is there twice after texts are set. -/
theorem nodup_of_setTexts (success : setTexts texts parameters = .ok done)
    (distinct : (parameters.map Prod.fst).Nodup) : (done.map Prod.fst).Nodup := by
  induction texts generalizing parameters with
  | nil => exact Except.ok.inj success ▸ distinct
  | cons entry rest ih =>
    rw [setTexts] at success
    split at success
    · exact ih success (nodup_setParameter distinct _ _)
    · simp at success

/-- Each name has the literal of its last text, or what it had before. -/
theorem lookup_of_setTexts (success : setTexts texts parameters = .ok done) (name : String) :
    done.lookup name =
      (lastText? texts name).elim (parameters.lookup name) Literal.ofText? := by
  induction texts generalizing parameters with
  | nil => rw [← Except.ok.inj success]; rfl
  | cons entry rest ih =>
    obtain ⟨other, text⟩ := entry
    rw [setTexts] at success
    split at success
    · rename_i literal decoded
      rw [ih success, lookup_setParameter, lastText?_cons]
      cases lastText? rest name with
      | some later => rfl
      | none =>
        rw [decode_eq_ok_iff, ← Literal.ofText?_eq_some_iff] at decoded
        by_cases same : other = name <;> simp [same, decoded]
    · simp at success

end SetTexts

section Read

variable {node name : Node} {arguments : List Node}

/-- A node with a name is read if its kind is right and its texts can be set. -/
theorem ofNode_eq_ok_iff (children : node.children = name :: arguments) {option : PropertyOption} :
    ofNode node = .ok option ↔
      node.kind = .option ∧ option.name = name.text ∧
        setTexts (texts arguments) [] = .ok option.parameters := by
  obtain ⟨given, parameters⟩ := option
  rw [ofNode, children]
  by_cases kind : node.kind = .option
  · simp only [kind, parametersOf_eq]
    cases setTexts (texts arguments) [] <;> simp [eq_comm]
  · simp [kind]

/-- An option with a name is refused exactly if its texts cannot be set, for the same reason. -/
theorem ofNode_eq_error_iff (kind : node.kind = .option)
    (children : node.children = name :: arguments) {error : CompileError} :
    ofNode node = .error error ↔ setTexts (texts arguments) [] = .error error := by
  rw [ofNode, children]
  simp only [kind, parametersOf_eq]
  cases setTexts (texts arguments) [] <;> simp

/-- The parameters of an option that is read are the literals of the last texts of the names. -/
theorem parameter?_of_ofNode (children : node.children = name :: arguments)
    {option : PropertyOption} (accepted : ofNode node = .ok option) (key : String) :
    option.parameter? key = (lastText? (texts arguments) key).bind Literal.ofText? := by
  obtain ⟨_, _, set⟩ := (ofNode_eq_ok_iff children).mp accepted
  rw [parameter?, lookup_of_setTexts set]
  cases lastText? (texts arguments) key <;> rfl

end Read

/-- A node is refused for its shape exactly if it is no option or has no name. -/
theorem exists_structuralParse_iff (node : Node) :
    (∃ fault, ofNode node = .error (.structuralParse fault node.position)) ↔
      node.kind ≠ .option ∨ node.children = [] := by
  by_cases kind : node.kind = .option
  · cases children : node.children with
    | nil =>
      have refused : ofNode node = .error (.atNode node .optionWithoutName) := by
        rw [ofNode, if_neg (by simp [kind]), children]
      exact iff_of_true ⟨_, refused⟩ (.inr rfl)
    | cons name arguments =>
      refine iff_of_false ?_ (by simp [kind])
      rintro ⟨fault, refused⟩
      rw [ofNode_eq_error_iff kind children, setTexts_eq_error_iff] at refused
      obtain ⟨text, _, wrong⟩ := refused
      cases wrong
  · have refused : ofNode node = .error (.atNode node (.optionExpected node.kind)) := by
      rw [ofNode, if_pos kind]
    exact iff_of_true ⟨_, refused⟩ (.inl kind)

/-- An option is built from its node exactly as its arguments say. A node that is no option or has
no name is refused at its place. In any other node the first text that is to be decoded and is no
literal is what the option is refused for. If there is none, the option has one parameter for each
name, with the literal of the last text that the name has. -/
theorem ofNode_builds (node : Node) :
    ((∃ fault, ofNode node = .error (.structuralParse fault node.position)) ↔
      node.kind ≠ .option ∨ node.children = []) ∧
    ∀ name arguments, node.kind = .option → node.children = name :: arguments →
      (∀ error, ofNode node = .error error ↔
        ∃ text, FirstRejected (texts arguments) text ∧ error = .literalParse text) ∧
      ((∀ entry ∈ texts arguments, ∃ literal, decode entry.2 = .ok literal) →
        ∃ option, ofNode node = .ok option) ∧
      ∀ option, ofNode node = .ok option → option.name = name.text ∧
        (option.parameters.map Prod.fst).Nodup ∧
        ∀ key literal, option.parameter? key = some literal ↔
          ∃ text, lastText? (texts arguments) key = some text ∧ decode text = .ok literal := by
  refine ⟨exists_structuralParse_iff node, fun name arguments kind children => ?_⟩
  refine ⟨fun error => ?_, fun literals => ?_, fun option accepted => ?_⟩
  · rw [ofNode_eq_error_iff kind children, setTexts_eq_error_iff]
  · obtain ⟨parameters, set⟩ := exists_setTexts_eq_ok literals
    exact ⟨⟨name.text, parameters⟩, (ofNode_eq_ok_iff children).mpr ⟨kind, rfl, set⟩⟩
  · obtain ⟨_, named, set⟩ := (ofNode_eq_ok_iff children).mp accepted
    refine ⟨named, nodup_of_setTexts set List.nodup_nil, fun key literal => ?_⟩
    rw [parameter?_of_ofNode children accepted, Option.bind_eq_some_iff]
    simp only [decode_eq_ok_iff, Literal.ofText?_eq_some_iff]

/-- An option with a name that is given twice, and with an argument that is passed over. -/
def indexOption (firstName : String) : Node :=
  Node.option "index" [Node.pair "name" firstName, Node.token "7", Node.pair "weight" "0.5",
    Node.pair "name" "'by_name'"]

/-- An option with a quoted name is built; without the quotes it is refused with the text. -/
theorem ofNode_builds_indexOption :
    (∃ option, ofNode (indexOption "'by_email'") = .ok option ∧ option.name = "index" ∧
      option.parameter? "name" = some (.string "by_name")) ∧
    ofNode (indexOption "by_email") = .error (.literalParse "by_email") := by
  obtain ⟨_, accepts⟩ := ofNode_builds (indexOption "'by_email'")
  obtain ⟨_, rejects⟩ := ofNode_builds (indexOption "by_email")
  obtain ⟨_, succeeds, parameters⟩ := accepts _ _ rfl rfl
  obtain ⟨fails, _⟩ := rejects _ _ rfl rfl
  obtain ⟨option, read⟩ := succeeds (by
    change ∀ entry ∈ [("name", "'by_email'"), ("weight", "0.5"), ("name", "'by_name'")], _
    simp only [List.forall_mem_cons, List.not_mem_nil, false_implies, implies_true, and_true]
    exact ⟨⟨.string "by_email", by decide⟩, ⟨.float (Binary64.ofDecimal ⟨false, 5, -1⟩), by decide⟩,
      ⟨.string "by_name", by decide⟩⟩)
  obtain ⟨named, _, parameter⟩ := parameters option read
  have noLiteral : decode "by_email" = .error (.literalParse "by_email") := by decide
  refine ⟨⟨option, read, named, (parameter "name" _).mpr ⟨"'by_name'", by decide, by decide⟩⟩, ?_⟩
  exact (fails _).mpr
    ⟨"by_email", ⟨[], "name", _, rfl, by simp, fun literal => by simp [noLiteral]⟩, rfl⟩

/-- A positional argument, if one was given: an option that is read has a value exactly if it has a
single argument that is no pair, or a pair of the name `value`. -/
theorem isSome_value?_iff {node : Node} {option : PropertyOption}
    (accepted : ofNode node = .ok option) :
    ∃ name arguments, node.children = name :: arguments ∧
      (option.value?.isSome = true ↔
        (∃ argument, IsPositional arguments argument) ∨
          ∃ argument ∈ arguments, ∃ text, argument.IsPair "value" text) ∧
      ∀ argument, IsPositional arguments argument →
        option.value? = Literal.ofText? argument.text := by
  cases children : node.children with
  | nil =>
    obtain ⟨fault, refused⟩ := (exists_structuralParse_iff node).mpr (.inr children)
    rw [accepted] at refused
    cases refused
  | cons name arguments =>
    refine ⟨name, arguments, rfl, ?_, fun argument positional => ?_⟩
    · obtain ⟨_, _, set⟩ := (ofNode_eq_ok_iff children).mp accepted
      have literals := exists_decode_of_setTexts set
      have present : option.value?.isSome = true ↔
          ∃ text, lastText? (texts arguments) "value" = some text := by
        rw [value?, positionalName, parameter?_of_ofNode children accepted]
        cases last : lastText? (texts arguments) "value" with
        | none => simp
        | some text =>
          obtain ⟨literal, decoded⟩ := literals _ (mem_of_lastText? last)
          rw [decode_eq_ok_iff, ← Literal.ofText?_eq_some_iff] at decoded
          simp [decoded]
      simp only [present, exists_lastText?_iff, mem_texts_iff, exists_or, true_and]
      refine or_congr ⟨?_, ?_⟩ ⟨?_, ?_⟩
      · exact fun ⟨_, argument, positional, _⟩ => ⟨argument, positional⟩
      · exact fun ⟨argument, positional⟩ => ⟨_, argument, positional, rfl⟩
      · exact fun ⟨text, argument, listed, pair⟩ => ⟨argument, listed, text, pair⟩
      · exact fun ⟨argument, listed, text, pair⟩ => ⟨text, argument, listed, pair⟩
    · obtain ⟨rfl, kind⟩ := positional
      have last : lastText? (texts [argument]) "value" = some argument.text := by
        simp [texts, kind, lastText?]
      rw [value?, positionalName, parameter?_of_ofNode children accepted, last, Option.bind_some]

/-- A positional argument is the value of an option, a pair of another name is not. -/
theorem isSome_value?_iff_bounds :
    (∃ option, ofNode (Node.option "default" [Node.token "3"]) = .ok option ∧
      option.value? = some (.integer 3)) ∧
    ∃ option, ofNode (Node.option "max" [Node.pair "length" "64"]) = .ok option ∧
      ¬ option.value?.isSome = true := by
  have positional : ofNode (Node.option "default" [Node.token "3"]) =
      .ok ⟨"default", [("value", .integer 3)]⟩ := by decide
  have named : ofNode (Node.option "max" [Node.pair "length" "64"]) =
      .ok ⟨"max", [("length", .integer 64)]⟩ := by decide
  refine ⟨⟨_, positional, ?_⟩, ⟨_, named, ?_⟩⟩
  · obtain ⟨_, arguments, children, _, value⟩ := isSome_value?_iff positional
    obtain ⟨rfl, rfl⟩ := List.cons.inj children
    exact (value _ ⟨rfl, by decide⟩).trans (by decide)
  · obtain ⟨_, arguments, children, present, _⟩ := isSome_value?_iff named
    obtain ⟨rfl, rfl⟩ := List.cons.inj children
    rw [present]
    rintro (⟨argument, same, notPair⟩ | ⟨argument, listed, text, isPair⟩)
    · obtain rfl := (List.cons.inj same).1
      exact notPair rfl
    · obtain rfl := List.mem_singleton.mp listed
      obtain ⟨_, key, value, children, isName, _⟩ := isPair
      obtain rfl := (List.cons.inj children).1
      exact absurd isName (by decide)

/-- A named argument passes for a positional one if its name is `value`. -/
theorem exists_value?_of_pair :
    ∃ option, ofNode (Node.option "default" [Node.pair "value" "3"]) = .ok option ∧
      option.value? = some (.integer 3) ∧
      ¬ ∃ argument, IsPositional [Node.pair "value" "3"] argument := by
  refine ⟨⟨"default", [("value", .integer 3)]⟩, by decide, by decide, ?_⟩
  rintro ⟨argument, same, notPair⟩
  obtain rfl := (List.cons.inj same).1
  exact notPair rfl

end PropertyOption

end SchemaGraph
