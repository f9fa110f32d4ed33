import SchemaGraph.Node.TypeExpression
import SchemaGraph.Proofs.MaximalRuns
import Mathlib.Data.List.DropRight
import Mathlib.Data.List.TakeWhile

/-!
# Written type expressions are cut at delimiters

What a written type expression says is read off its maximal runs of characters between brackets,
commas and blanks: each run is a name, or the marker of a container if it is a container keyword and
the next character that is not blank opens a bracket. It can be scanned by counts of bytes as well,
skipping one byte wherever no name begins. Since blanks are dropped by characters, such a byte is
always a bracket or a comma, so no cut ever falls inside of a character.
-/

namespace SchemaGraph.Node

open SchemaGraph.Text

/-- The keywords of the containers, with their markers. -/
inductive IsKeyword : String → NodeKind → Prop
  | list : IsKeyword "list" .typeList
  | set : IsKeyword "set" .typeSet
  | map : IsKeyword "map" .typeMap

/-- Behind blanks, if there are any, the text goes on with an opening bracket. -/
def OpensBracket (text : List Char) : Prop :=
  ∃ blanks behind, text = blanks ++ '<' :: behind ∧ ∀ c ∈ blanks, isBlank c = true

/-- The nodes that the maximal runs of a text between its delimiters stand for, in order. -/
inductive Reads : List Char → List Node → Prop
  | ended {gap : List Char} (outside : ∀ c ∈ gap, delimitsName c = true) : Reads gap []
  | marker {gap run rest : List Char} {kind : NodeKind} {nodes : List Node}
      (outside : ∀ c ∈ gap, delimitsName c = true) (nonempty : run ≠ [])
      (inside : ∀ c ∈ run, delimitsName c = false)
      (maximal : ∀ c ∈ rest.head?, delimitsName c = true)
      (keyword : IsKeyword (String.ofList run) kind) (opens : OpensBracket rest)
      (behind : Reads rest nodes) :
      Reads (gap ++ (run ++ rest)) (make kind (String.ofList run) [] :: nodes)
  | name {gap run rest : List Char} {nodes : List Node}
      (outside : ∀ c ∈ gap, delimitsName c = true) (nonempty : run ≠ [])
      (inside : ∀ c ∈ run, delimitsName c = false)
      (maximal : ∀ c ∈ rest.head?, delimitsName c = true)
      (notMarker : ∀ kind, IsKeyword (String.ofList run) kind → ¬ OpensBracket rest)
      (behind : Reads rest nodes) :
      Reads (gap ++ (run ++ rest))
        (make .typePrimitive "type" [] :: token (String.ofList run) :: nodes)

/-! ### Names and gaps -/

/-- A keyword marks a container and never a name. -/
theorem IsKeyword.ne_typePrimitive {name : String} {kind : NodeKind}
    (keyword : IsKeyword name kind) : kind ≠ .typePrimitive := by
  cases keyword <;> decide

/-- Exactly the keywords have markers. -/
theorem containerMarker?_eq_some_iff {name : String} {kind : NodeKind} :
    containerMarker? name = some kind ↔ IsKeyword name kind := by
  constructor
  · intro marks
    unfold containerMarker? at marks
    split at marks
    · exact Option.some.inj marks ▸ .list
    · exact Option.some.inj marks ▸ .set
    · exact Option.some.inj marks ▸ .map
    · simp at marks
  · intro keyword
    cases keyword <;> rfl

/-- A bracket opens a text if it comes first. -/
theorem opensBracket_eq_true_iff {text : List Char} :
    opensBracket text = true ↔ OpensBracket text := by
  rw [opensBracket, beq_iff_eq]
  constructor
  · intro first
    obtain ⟨behind, rest⟩ := List.head?_eq_some_iff.mp first
    refine ⟨text.takeWhile isBlank, behind, ?_, fun c => List.mem_takeWhile_imp⟩
    rw [← rest, dropBlanks, List.takeWhile_append_dropWhile]
  · rintro ⟨blanks, behind, rfl, blank⟩
    rw [dropBlanks, dropWhile_run blank (stops_cons.mpr (by decide))]
    rfl

/-- Blanks make no difference in front of a bracket. -/
theorem opensBracket_append_blanks {blanks : List Char} (blank : ∀ c ∈ blanks, isBlank c = true)
    (text : List Char) : opensBracket (blanks ++ text) = opensBracket text := by
  rw [opensBracket, opensBracket, dropBlanks, List.dropWhile_append_of_pos blank, dropBlanks]

/-- A delimiter leaves no node. -/
theorem expressionNodes_delimiter {c : Char} (delimits : delimitsName c = true)
    (text : List Char) : expressionNodes (c :: text) = expressionNodes text := by
  rw [expressionNodes, if_pos delimits]

/-- Delimiters in front leave no node. -/
theorem expressionNodes_gap {gap : List Char} (outside : ∀ c ∈ gap, delimitsName c = true)
    (text : List Char) : expressionNodes (gap ++ text) = expressionNodes text := by
  induction gap with
  | nil => rfl
  | cons c rest ih =>
    rw [List.forall_mem_cons] at outside
    rw [List.cons_append, expressionNodes_delimiter outside.1, ih outside.2]

/-- A run is cut off in front of the next delimiter. -/
theorem expressionNodes_run {run rest : List Char} (nonempty : run ≠ [])
    (inside : ∀ c ∈ run, delimitsName c = false)
    (maximal : ∀ c ∈ rest.head?, delimitsName c = true) :
    expressionNodes (run ++ rest) =
      nameNodes (String.ofList run) rest ++ expressionNodes rest := by
  cases run with
  | nil => exact absurd rfl nonempty
  | cons c run =>
    rw [List.forall_mem_cons] at inside
    have further : ∀ c ∈ run, (!delimitsName c) = true := by simpa using inside.2
    have stops : Stops (!delimitsName ·) rest := fun c first => by simp [maximal c first]
    rw [List.cons_append, expressionNodes, if_neg (by simp [inside.1]),
      takeWhile_run further stops, dropWhile_run further stops]

/-- Of the text behind a name only the bracket matters. -/
theorem nameNodes_congr {front behind : List Char} (same : opensBracket front = opensBracket behind)
    (name : String) : nameNodes name front = nameNodes name behind := by
  rw [nameNodes, nameNodes, same]

/-- In front of a bracket a keyword is the marker of its container. -/
theorem nameNodes_marker {name : String} {kind : NodeKind} (keyword : IsKeyword name kind)
    {rest : List Char} (opens : OpensBracket rest) :
    nameNodes name rest = [make kind name []] := by
  rw [nameNodes, containerMarker?_eq_some_iff.mpr keyword]
  exact if_pos (opensBracket_eq_true_iff.mpr opens)

/-- Anywhere else it is a name like any other. -/
theorem nameNodes_name {name : String} {rest : List Char}
    (notMarker : ∀ kind, IsKeyword name kind → ¬ OpensBracket rest) :
    nameNodes name rest = [make .typePrimitive "type" [], token name] := by
  cases marks : containerMarker? name with
  | none => rw [nameNodes, marks]
  | some kind =>
    rw [nameNodes, marks]
    exact if_neg fun opens =>
      notMarker kind (containerMarker?_eq_some_iff.mp marks) (opensBracket_eq_true_iff.mp opens)

/-- A text is read in one way only. -/
theorem Reads.eq_expressionNodes {text : List Char} {nodes : List Node} (reads : Reads text nodes) :
    nodes = expressionNodes text := by
  induction reads with
  | ended outside =>
    have nothing := expressionNodes_gap outside []
    rw [List.append_nil, expressionNodes] at nothing
    exact nothing.symm
  | marker outside nonempty inside maximal keyword opens _ ih =>
    rw [expressionNodes_gap outside, expressionNodes_run nonempty inside maximal,
      nameNodes_marker keyword opens, ih]
    rfl
  | name outside nonempty inside maximal notMarker _ ih =>
    rw [expressionNodes_gap outside, expressionNodes_run nonempty inside maximal,
      nameNodes_name notMarker, ih]
    rfl

/-- A delimiter in front adds nothing to what is read. -/
theorem Reads.delimiter {c : Char} (delimits : delimitsName c = true) {text : List Char}
    {nodes : List Node} (reads : Reads text nodes) : Reads (c :: text) nodes := by
  have outside {gap : List Char} (all : ∀ d ∈ gap, delimitsName d = true) :
      ∀ d ∈ c :: gap, delimitsName d = true := by
    rw [List.forall_mem_cons]
    exact ⟨delimits, all⟩
  cases reads with
  | ended all => exact .ended (outside all)
  | marker all nonempty inside maximal keyword opens behind =>
    exact .marker (outside all) nonempty inside maximal keyword opens behind
  | name all nonempty inside maximal notMarker behind =>
    exact .name (outside all) nonempty inside maximal notMarker behind

/-- Every text is read in some way. -/
theorem reads_expressionNodes (text : List Char) : Reads text (expressionNodes text) := by
  induction text using expressionNodes.induct with
  | case1 => exact expressionNodes.eq_1 ▸ .ended (List.forall_mem_nil _)
  | case2 c rest delimits ih =>
    exact expressionNodes_delimiter delimits rest ▸ ih.delimiter delimits
  | case3 c rest notDelimiter after ih =>
    obtain ⟨run, behind, chars, ⟨nonempty, inside⟩, maximal, isAfter⟩ :=
      exists_run (Bool.eq_false_iff.mpr notDelimiter) rest
    have behindReads : Reads behind (expressionNodes behind) := isAfter ▸ ih
    rw [chars, expressionNodes_run nonempty inside maximal]
    by_cases marks : ∃ kind, IsKeyword (String.ofList run) kind ∧ OpensBracket behind
    · obtain ⟨kind, keyword, opens⟩ := marks
      rw [nameNodes_marker keyword opens]
      exact .marker (List.forall_mem_nil _) nonempty inside maximal keyword opens behindReads
    · have notMarker : ∀ kind, IsKeyword (String.ofList run) kind → ¬ OpensBracket behind :=
        fun kind keyword opens => marks ⟨kind, keyword, opens⟩
      rw [nameNodes_name notMarker]
      exact .name (List.forall_mem_nil _) nonempty inside maximal notMarker behindReads

/-- A text is read in exactly one way. -/
theorem reads_iff {text : List Char} {nodes : List Node} :
    Reads text nodes ↔ nodes = expressionNodes text := by
  constructor
  · exact Reads.eq_expressionNodes
  · rintro rfl
    exact reads_expressionNodes text

/-! ### The scan by bytes -/

/-- The bytes that characters take in UTF-8. -/
def byteCount : List Char → Nat
  | [] => 0
  | c :: rest => c.utf8Size + byteCount rest

/-- Cut a text behind so many bytes, unless it is shorter or the cut falls inside of a character. -/
def cutBytes? : Nat → List Char → Option (List Char × List Char)
  | 0, text => some ([], text)
  | _ + 1, [] => none
  | bytes + 1, c :: rest =>
    if c.utf8Size ≤ bytes + 1 then
      (cutBytes? (bytes + 1 - c.utf8Size) rest).map fun (front, behind) => (c :: front, behind)
    else none

/-- To cut a text by a count of bytes cuts it between two characters. -/
theorem append_of_cutBytes? {bytes : Nat} {text front behind : List Char}
    (cut : cutBytes? bytes text = some (front, behind)) :
    text = front ++ behind ∧ byteCount front = bytes := by
  induction text generalizing bytes front with
  | nil =>
    cases bytes with
    | zero => simp_all [cutBytes?, byteCount]
    | succ bytes => simp [cutBytes?] at cut
  | cons c rest ih =>
    cases bytes with
    | zero => simp_all [cutBytes?, byteCount]
    | succ bytes =>
      rw [cutBytes?, Option.ite_none_right_eq_some, Option.map_eq_some_iff] at cut
      obtain ⟨fits, ⟨inner, _⟩, cutInner, parts⟩ := cut
      obtain ⟨rfl, rfl⟩ := Prod.mk.inj parts
      obtain ⟨rfl, count⟩ := ih cutInner
      refine ⟨rfl, ?_⟩
      rw [byteCount]
      omega

/-- A text can be cut in front of any of its characters. -/
theorem cutBytes?_append (front behind : List Char) :
    cutBytes? (byteCount front) (front ++ behind) = some (front, behind) := by
  induction front with
  | nil => simp [byteCount, cutBytes?]
  | cons c rest ih =>
    have positive := c.utf8Size_pos
    have count : byteCount (c :: rest) = (c.utf8Size - 1 + byteCount rest) + 1 := by
      rw [byteCount]
      omega
    have left : c.utf8Size - 1 + byteCount rest + 1 - c.utf8Size = byteCount rest := by omega
    rw [count, List.cons_append, cutBytes?, if_pos (by omega), left, ih]
    rfl

/-- To drop blanks does not lengthen a text. -/
theorem length_dropBlanks_le (text : List Char) : (dropBlanks text).length ≤ text.length :=
  (List.dropWhile_suffix isBlank).length_le

/-- Behind something that was cut off the text is shorter, so the scan comes to an end. -/
theorem length_dropBlanks_lt {bytes : Nat} {text front behind : List Char}
    (cut : cutBytes? bytes text = some (front, behind)) (positive : bytes ≠ 0) :
    (dropBlanks behind).length < text.length := by
  obtain ⟨rfl, count⟩ := append_of_cutBytes? cut
  have shorter := length_dropBlanks_le behind
  have nonempty : front ≠ [] := by
    rintro rfl
    exact positive count.symm
  have := List.length_pos_iff.mpr nonempty
  rw [List.length_append]
  omega

/-- Drop the blanks in front and at the end. -/
def trimBlanks (text : List Char) : List Char :=
  (dropBlanks text).rdropWhile isBlank

/-- What a scan by bytes gives: the nodes, and what was skipped byte by byte. -/
structure Scan where
  /-- The nodes of the names. -/
  nodes : List Node
  /-- The characters that were skipped as one byte each. -/
  skipped : List Char

/-- The bytes in front of the first delimiter. -/
def nameBytes (text : List Char) : Nat :=
  byteCount (text.takeWhile (!delimitsName ·))

/-- Scan a text by counts of bytes, skipping one byte where no name begins, unless a cut falls
inside of a character. -/
def scanBytes? (text : List Char) : Option Scan :=
  if text = [] then some ⟨[], []⟩
  else if nameBytes text = 0 then
    match _ : cutBytes? 1 text with
    | none => none
    | some (skipped, behind) =>
      (scanBytes? (dropBlanks behind)).map fun scan =>
        { scan with skipped := skipped ++ scan.skipped }
  else
    match _ : cutBytes? (nameBytes text) text with
    | none => none
    | some (name, behind) =>
      (scanBytes? (dropBlanks behind)).map fun scan =>
        { scan with nodes := nameNodes (String.ofList name) (dropBlanks behind) ++ scan.nodes }
termination_by text.length
decreasing_by
  · exact length_dropBlanks_lt ‹_› Nat.one_ne_zero
  · exact length_dropBlanks_lt ‹_› ‹_›

/-- The brackets and the comma. -/
def isPunctuation (c : Char) : Bool :=
  c == '<' || c == '>' || c == ','

/-- Names are delimited by punctuation and by blanks. -/
theorem delimitsName_eq (c : Char) : delimitsName c = (isPunctuation c || isBlank c) := rfl

/-- The punctuation of type expressions are angle brackets and commas. -/
theorem isPunctuation_iff {c : Char} : isPunctuation c = true ↔ c = '<' ∨ c = '>' ∨ c = ',' := by
  simp [isPunctuation, or_assoc]

/-- Punctuation takes one byte, so that the scan can step over it. -/
theorem utf8Size_of_isPunctuation {c : Char} (punctuation : isPunctuation c = true) :
    c.utf8Size = 1 := by
  obtain rfl | rfl | rfl := isPunctuation_iff.mp punctuation <;> rfl

/-- A blank is neither a bracket nor a comma. -/
theorem isPunctuation_of_isBlank {c : Char} (blank : isBlank c = true) :
    isPunctuation c = false := by
  rw [Bool.eq_false_iff]
  intro punctuation
  obtain rfl | rfl | rfl := isPunctuation_iff.mp punctuation <;> exact absurd blank (by decide)

/-- No blank is punctuation. -/
theorem filter_isPunctuation_of_blanks {blanks : List Char}
    (blank : ∀ c ∈ blanks, isBlank c = true) : blanks.filter isPunctuation = [] :=
  List.filter_eq_nil_iff.mpr fun c listed => by simp [isPunctuation_of_isBlank (blank c listed)]

/-- What is dropped in front of a text is blank. -/
theorem exists_blanks_dropBlanks (text : List Char) :
    ∃ blanks, text = blanks ++ dropBlanks text ∧ ∀ c ∈ blanks, isBlank c = true :=
  ⟨_, List.takeWhile_append_dropWhile.symm, fun _ => List.mem_takeWhile_imp⟩

/-- No punctuation is dropped along with blanks. -/
theorem filter_isPunctuation_dropBlanks (text : List Char) :
    (dropBlanks text).filter isPunctuation = text.filter isPunctuation := by
  obtain ⟨blanks, chars, blank⟩ := exists_blanks_dropBlanks text
  conv_rhs => rw [chars, List.filter_append, filter_isPunctuation_of_blanks blank, List.nil_append]

/-- A blank delimits a name. -/
theorem delimitsName_of_isBlank {c : Char} (blank : isBlank c = true) : delimitsName c = true := by
  simp [delimitsName_eq, blank]

/-- Blanks in front of a text add no nodes. -/
theorem expressionNodes_dropBlanks (text : List Char) :
    expressionNodes (dropBlanks text) = expressionNodes text := by
  obtain ⟨blanks, chars, blank⟩ := exists_blanks_dropBlanks text
  conv_rhs =>
    rw [chars, expressionNodes_gap fun c listed => delimitsName_of_isBlank (blank c listed)]

/-- After blanks are dropped nothing blank comes first. -/
theorem stops_isBlank_dropBlanks (text : List Char) : Stops isBlank (dropBlanks text) := by
  intro c first
  have stops := List.head?_dropWhile_not isBlank text
  rw [← dropBlanks, Option.mem_def.mp first] at stops
  simpa using stops

/-- Blanks behind a name do not part it from its bracket. -/
theorem nameNodes_dropBlanks (name : String) (text : List Char) :
    nameNodes name (dropBlanks text) = nameNodes name text := by
  refine nameNodes_congr ?_ name
  rw [opensBracket, dropBlanks, (stops_isBlank_dropBlanks text).dropWhile_eq, opensBracket]

/-- The scan steps over punctuation and over the blanks behind it. -/
theorem scanBytes?_skip {c : Char} (punctuation : isPunctuation c = true) (rest : List Char) :
    scanBytes? (c :: rest) =
      (scanBytes? (dropBlanks rest)).map fun scan =>
        { scan with skipped := c :: scan.skipped } := by
  have noName : nameBytes (c :: rest) = 0 := by
    simp [nameBytes, delimitsName_eq, punctuation, byteCount]
  have cut : cutBytes? 1 (c :: rest) = some ([c], rest) := by
    have count : byteCount [c] = 1 := by simp [byteCount, utf8Size_of_isPunctuation punctuation]
    exact count ▸ cutBytes?_append [c] rest
  rw [scanBytes?, if_neg (List.cons_ne_nil _ _), if_pos noName]
  split
  · simp_all
  · simp_all

/-- The scan takes in a run up to the first character that delimits names. -/
theorem scanBytes?_run {run rest : List Char} (nonempty : run ≠ [])
    (inside : ∀ c ∈ run, delimitsName c = false)
    (maximal : ∀ c ∈ rest.head?, delimitsName c = true) :
    scanBytes? (run ++ rest) =
      (scanBytes? (dropBlanks rest)).map fun scan =>
        { scan with nodes := nameNodes (String.ofList run) (dropBlanks rest) ++ scan.nodes } := by
  have name : nameBytes (run ++ rest) = byteCount run := by
    rw [nameBytes, takeWhile_run (by simpa using inside) fun c first => by simp [maximal c first]]
  have cut := cutBytes?_append run rest
  have positive : byteCount run ≠ 0 := by
    cases run with
    | nil => exact absurd rfl nonempty
    | cons c _ =>
      have := c.utf8Size_pos
      rw [byteCount]
      omega
  rw [scanBytes?, if_neg (by simp [nonempty]), if_neg (name ▸ positive)]
  split
  · simp_all
  · simp_all

/-- What does not begin with a blank is scanned without a cut inside of a character, and only
brackets and commas are skipped. -/
theorem scanBytes?_eq {text : List Char} (stops : Stops isBlank text) :
    scanBytes? text = some ⟨expressionNodes text, text.filter isPunctuation⟩ := by
  induction length : text.length using Nat.strongRecOn generalizing text with
  | ind bound ih =>
    cases text with
    | nil => rw [scanBytes?, expressionNodes]; rfl
    | cons c rest =>
      have notBlank := stops_cons.mp stops
      by_cases punctuation : isPunctuation c = true
      · have delimits : delimitsName c = true := by simp [delimitsName_eq, punctuation]
        have shorter : (dropBlanks rest).length < bound := by
          have := length_dropBlanks_le rest
          rw [List.length_cons] at length
          omega
        rw [scanBytes?_skip punctuation, ih _ shorter (stops_isBlank_dropBlanks rest) rfl,
          Option.map_some, expressionNodes_dropBlanks, filter_isPunctuation_dropBlanks,
          expressionNodes_delimiter delimits, List.filter_cons_of_pos punctuation]
      · have notDelimiter : delimitsName c = false := by
          simp [delimitsName_eq, punctuation, notBlank]
        obtain ⟨run, behind, chars, ⟨nonempty, inside⟩, maximal, -⟩ := exists_run notDelimiter rest
        have shorter : (dropBlanks behind).length < bound := by
          have := length_dropBlanks_le behind
          have := List.length_pos_iff.mpr nonempty
          rw [chars, List.length_append] at length
          omega
        have noneInRun : run.filter isPunctuation = [] := by
          refine List.filter_eq_nil_iff.mpr fun d listed => ?_
          have := inside d listed
          simp_all [delimitsName_eq]
        rw [chars, scanBytes?_run nonempty inside maximal,
          ih _ shorter (stops_isBlank_dropBlanks behind) rfl, Option.map_some,
          expressionNodes_dropBlanks, filter_isPunctuation_dropBlanks, nameNodes_dropBlanks,
          expressionNodes_run nonempty inside maximal, List.filter_append, noneInRun,
          List.nil_append]

/-! ### Characters and blanks -/

/-- The characters of names are kept, each once and in order: those of the markers and of the tokens
are those that are no delimiters. -/
theorem Reads.flatMap_text {text : List Char} {nodes : List Node} (reads : Reads text nodes) :
    (nodes.filter (·.kind != .typePrimitive)).flatMap (·.text.toList) =
      text.filter (!delimitsName ·) := by
  have ofGap {gap : List Char} (outside : ∀ c ∈ gap, delimitsName c = true) :
      gap.filter (!delimitsName ·) = [] :=
    List.filter_eq_nil_iff.mpr fun c listed => by simp [outside c listed]
  have ofRun {run : List Char} (inside : ∀ c ∈ run, delimitsName c = false) :
      run.filter (!delimitsName ·) = run :=
    List.filter_eq_self.mpr fun c listed => by simp [inside c listed]
  induction reads with
  | ended outside => rw [ofGap outside]; rfl
  | @marker gap run rest kind nodes outside _ inside _ keyword _ _ ih =>
    rw [List.filter_cons_of_pos (by simpa [make] using keyword.ne_typePrimitive),
      List.flatMap_cons, ih, List.filter_append, ofGap outside, List.filter_append, ofRun inside]
    simp [make]
  | name outside _ inside _ _ _ ih =>
    rw [List.filter_cons_of_neg (by simp [make]), List.filter_cons_of_pos (by rfl),
      List.flatMap_cons, ih, List.filter_append, ofGap outside, List.filter_append, ofRun inside]
    simp [token, make]

/-- Blanks between two texts make no difference to a bracket. -/
theorem opensBracket_append_blanks_append {blanks : List Char}
    (blank : ∀ c ∈ blanks, isBlank c = true) (front behind : List Char) :
    opensBracket (front ++ (blanks ++ behind)) = opensBracket (front ++ behind) := by
  induction front with
  | nil => exact opensBracket_append_blanks blank behind
  | cons c front ih =>
    cases isBlankHere : isBlank c with
    | true =>
      have first : ∀ d ∈ [c], isBlank d = true := by simpa using isBlankHere
      exact (opensBracket_append_blanks first _).trans
        (ih.trans (opensBracket_append_blanks first _).symm)
    | false => simp [opensBracket, dropBlanks, isBlankHere]

/-- Texts that begin with a delimiter still do when they are put together. -/
theorem delimited_append {front behind : List Char}
    (delimited : ∀ c ∈ front.head?, delimitsName c = true)
    (delimitedBehind : front = [] → ∀ c ∈ behind.head?, delimitsName c = true) :
    ∀ c ∈ (front ++ behind).head?, delimitsName c = true := by
  cases front with
  | nil => exact delimitedBehind rfl
  | cons c _ => simpa using delimited

/-- Blanks leave the nodes as they are wherever they cut no name in two. -/
theorem expressionNodes_append_blanks_append {blanks : List Char}
    (blank : ∀ c ∈ blanks, isBlank c = true) {front behind : List Char}
    (apart : (∀ c ∈ front.getLast?, delimitsName c = true) ∨
      ∀ c ∈ behind.head?, delimitsName c = true) :
    expressionNodes (front ++ (blanks ++ behind)) = expressionNodes (front ++ behind) := by
  have outside : ∀ c ∈ blanks, delimitsName c = true :=
    fun c listed => delimitsName_of_isBlank (blank c listed)
  have apartBehind {start left : List Char}
      (apart : (∀ c ∈ (start ++ left).getLast?, delimitsName c = true) ∨
        ∀ c ∈ behind.head?, delimitsName c = true) :
      (∀ c ∈ left.getLast?, delimitsName c = true) ∨ ∀ c ∈ behind.head?, delimitsName c = true :=
    apart.imp_left fun last c isLast => last c (List.mem_getLast?_append_of_mem_getLast? isLast)
  induction front using expressionNodes.induct with
  | case1 => exact expressionNodes_gap outside behind
  | case2 c rest delimits ih =>
    rw [List.cons_append, List.cons_append, expressionNodes_delimiter delimits,
      expressionNodes_delimiter delimits, ih (@apartBehind [c] rest apart)]
  | case3 c rest notDelimiter after ih =>
    obtain ⟨run, left, chars, ⟨nonempty, inside⟩, maximal, isAfter⟩ :=
      exists_run (Bool.eq_false_iff.mpr notDelimiter) rest
    rw [chars] at apart ⊢
    have behindStops : left = [] → ∀ c ∈ behind.head?, delimitsName c = true := by
      intro none
      rw [none] at apart
      refine apart.resolve_left fun last => ?_
      have isLast := List.getLast?_eq_some_getLast nonempty
      have delimits := last _ (by rw [List.append_nil]; exact isLast)
      rw [inside _ (List.getLast_mem nonempty)] at delimits
      exact Bool.noConfusion delimits
    have blanksStop : left = [] → ∀ c ∈ (blanks ++ behind).head?, delimitsName c = true := by
      intro none
      cases blanks with
      | nil => exact behindStops none
      | cons d _ => simpa using outside d List.mem_cons_self
    have sameBehind : expressionNodes (left ++ (blanks ++ behind)) =
        expressionNodes (left ++ behind) := by
      subst isAfter
      exact ih (apartBehind apart)
    rw [List.append_assoc, List.append_assoc,
      expressionNodes_run nonempty inside (delimited_append maximal blanksStop),
      expressionNodes_run nonempty inside (delimited_append maximal behindStops),
      nameNodes_congr (opensBracket_append_blanks_append blank left behind), sameBehind]

/-- What is trimmed at the end is blank. -/
theorem exists_blanks_trimBlanks (text : List Char) :
    ∃ blanks, dropBlanks text = trimBlanks text ++ blanks ∧ ∀ c ∈ blanks, isBlank c = true :=
  ⟨_, List.rdropWhile_append_rtakeWhile.symm, fun _ => List.mem_rtakeWhile_imp⟩

/-- A trimmed text has nothing blank in front. -/
theorem stops_isBlank_trimBlanks (text : List Char) : Stops isBlank (trimBlanks text) := by
  obtain ⟨blanks, chars, -⟩ := exists_blanks_trimBlanks text
  have stops := stops_isBlank_dropBlanks text
  rw [chars] at stops
  cases trimmed : trimBlanks text with
  | nil => exact stops_nil
  | cons c rest =>
    rw [trimmed] at stops
    exact stops_cons.mpr (stops_cons.mp stops)

/-- A trimmed text is scanned to its nodes. -/
theorem scanBytes?_trimBlanks (text : List Char) :
    scanBytes? (trimBlanks text) = some ⟨expressionNodes text, text.filter isPunctuation⟩ := by
  obtain ⟨blanks, chars, blank⟩ := exists_blanks_trimBlanks text
  have nodes : expressionNodes (trimBlanks text) = expressionNodes text := by
    have atEnd :=
      @expressionNodes_append_blanks_append _ blank (trimBlanks text) [] (.inr (by simp))
    rw [List.append_nil, List.append_nil, ← chars, expressionNodes_dropBlanks] at atEnd
    exact atEnd.symm
  have skipped : (trimBlanks text).filter isPunctuation = text.filter isPunctuation := by
    rw [← filter_isPunctuation_dropBlanks text, chars, List.filter_append,
      filter_isPunctuation_of_blanks blank, List.append_nil]
  rw [scanBytes?_eq (stops_isBlank_trimBlanks text), nodes, skipped]

/-- A written type expression gives the nodes that its maximal runs between delimiters stand for and
nothing else. The scan by bytes gives the same nodes: it never cuts a character, and what it skips
byte by byte are the brackets and commas. The markers and tokens have the characters of the text
that are no delimiters, each once and in order. Blanks change nothing at either end, next to a
bracket or comma, or next to other blanks. -/
theorem ofTypeExpression_reads (text : String) :
    (∀ nodes, Reads text.toList nodes ↔ nodes = ofTypeExpression text) ∧
      scanBytes? (trimBlanks text.toList) =
        some ⟨ofTypeExpression text, text.toList.filter isPunctuation⟩ ∧
      ((ofTypeExpression text).filter (·.kind != .typePrimitive)).flatMap (·.text.toList) =
        text.toList.filter (!delimitsName ·) ∧
      ∀ front blanks behind : String, text = front ++ behind →
        (∀ c ∈ blanks.toList, isBlank c = true) →
        (∀ c ∈ front.toList.getLast?, delimitsName c = true) ∨
          (∀ c ∈ behind.toList.head?, delimitsName c = true) →
        ofTypeExpression (front ++ blanks ++ behind) = ofTypeExpression text := by
  refine ⟨fun nodes => reads_iff, scanBytes?_trimBlanks text.toList,
    (reads_expressionNodes text.toList).flatMap_text, ?_⟩
  rintro front blanks behind rfl blank apart
  rw [ofTypeExpression, ofTypeExpression, String.toList_append, String.toList_append,
    String.toList_append, List.append_assoc, expressionNodes_append_blanks_append blank apart]

/-- Blanks between a container keyword and its bracket, with a name of characters of two bytes. -/
theorem ofTypeExpression_reads_blanks :
    ofTypeExpression ("list" ++ " \u00a0" ++ "<größe>") =
      ofTypeExpression ("list" ++ "<größe>") := by
  obtain ⟨_, _, _, blanks⟩ := ofTypeExpression_reads ("list" ++ "<größe>")
  refine blanks "list" " \u00a0" "<größe>" rfl (List.all_eq_true.mp (by decide)) (.inr ?_)
  simp [delimitsName]

end SchemaGraph.Node
