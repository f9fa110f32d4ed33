import SchemaGraph.Proofs.Visits

/-!
# What a property node carries

A property node gives a name, spells a type and goes on with options and comments. The spelling
of a type cannot be cut short or extended, so a node says one thing at most. A property is read
from a node exactly if all names in its type denote something and all of its options are
accepted, and it is then the property that the node describes.

What a comment says and how a type is represented are stated as relations, apart from the functions
that read the one and choose the other. Each function has one lemma that it meets its relation.
-/

namespace SchemaGraph

open Node TypeExpression

/-- The text consists of words, one or more, with a single space between each and the next. -/
inductive Joined : List String → String → Prop
  | word (word : String) : Joined [word] word
  | next {rest : List String} {text : String} (word : String) (behind : Joined rest text) :
      Joined (word :: rest) (word ++ " " ++ text)

/-- What a comment node says: the texts of its children as words, or its own text if it has no
children. -/
inductive Node.Carries (node : Node) : String → Prop
  | own (childless : node.children = []) : Carries node node.text
  | words {text : String} (words : Joined (node.children.map Node.text) text) : Carries node text

/-- What the last comment among nodes carries, or nothing if there is no comment. -/
inductive LastComment (nodes : List Node) : Option String → Prop
  | absent (absent : ∀ node ∈ nodes, node.kind ≠ .comment) : LastComment nodes none
  | last {front behind : List Node} {node : Node} {text : String}
      (split : nodes = front ++ node :: behind) (kind : node.kind = .comment)
      (last : ∀ later ∈ behind, later.kind ≠ .comment) (carries : node.Carries text) :
      LastComment nodes (some text)

/-- An option among the nodes has the name of the identity option. -/
def designatesIdentity (nodes : List Node) : Bool :=
  nodes.any fun node => node.kind == .option && node.firstChildText? == some "identity"

/-- Every option among the nodes can be read. -/
def OptionsAccepted (nodes : List Node) : Prop :=
  ∀ node ∈ nodes, node.kind = .option → ∃ option, PropertyOption.ofNode node = .ok option

/-- Words with single spaces between them are joined, and nothing else is what they make up. -/
theorem joined_iff {words : List String} {text : String} :
    Joined words text ↔ words ≠ [] ∧ " ".intercalate words = text := by
  constructor
  · intro joined
    induction joined with
    | word word => exact ⟨List.cons_ne_nil _ _, String.intercalate_singleton⟩
    | next word _ ih =>
      obtain ⟨written, rfl⟩ := ih
      exact ⟨List.cons_ne_nil _ _, String.intercalate_cons_of_ne_nil written⟩
  · rintro ⟨written, rfl⟩
    induction words with
    | nil => exact absurd rfl written
    | cons word rest ih =>
      by_cases alone : rest = []
      · rw [alone, String.intercalate_singleton]
        exact .word word
      · rw [String.intercalate_cons_of_ne_nil alone]
        exact .next word (ih alone)

/-- The text that is read off a comment node is what the node says. -/
theorem Node.commentText_eq_iff {node : Node} {text : String} :
    node.commentText = text ↔ node.Carries text := by
  rw [commentText]
  cases children : node.children with
  | nil =>
    rw [List.isEmpty_nil, if_pos rfl]
    constructor
    · rintro rfl
      exact .own children
    · rintro (_ | words)
      · rfl
      · simp [children, joined_iff] at words
  | cons word rest =>
    have written : (word :: rest).map Node.text ≠ [] := by simp
    rw [List.isEmpty_cons, if_neg (by simp)]
    constructor
    · intro same
      exact .words (children ▸ joined_iff.mpr ⟨written, same⟩)
    · rintro (childless | words)
      · simp [children] at childless
      · exact (joined_iff.mp (children ▸ words)).2

/-- The text that is read of a node is one that it carries. -/
theorem Node.carries_commentText (node : Node) : node.Carries node.commentText :=
  Node.commentText_eq_iff.mp rfl

/-- The text of the last comment among nodes, as it is read. -/
def lastComment? (nodes : List Node) : Option String :=
  (nodes.filter (·.kind == .comment)).getLast?.map Node.commentText

/-- A comment counts only if none stands behind it. -/
theorem lastComment?_cons_comment {node : Node} (kind : node.kind = .comment) (rest : List Node) :
    lastComment? (node :: rest) = (lastComment? rest).or (some node.commentText) := by
  rw [lastComment?, List.filter_cons_of_pos (by simp [kind]), List.getLast?_cons, lastComment?]
  cases (rest.filter (·.kind == .comment)).getLast? <;> rfl

/-- Other nodes are no comments. -/
theorem lastComment?_cons_other {node : Node} (kind : node.kind ≠ .comment) (rest : List Node) :
    lastComment? (node :: rest) = lastComment? rest := by
  rw [lastComment?, List.filter_cons_of_neg (by simpa using kind), lastComment?]

/-- A comment at the end is the last one. -/
theorem lastComment_concat {node : Node} (kind : node.kind = .comment) (nodes : List Node) :
    LastComment (nodes ++ [node]) (some node.commentText) :=
  .last rfl kind (by simp) node.carries_commentText

/-- Another node at the end leaves the last comment as it is. -/
theorem LastComment.concat {nodes : List Node} {comment : Option String}
    (commented : LastComment nodes comment) {node : Node} (other : node.kind ≠ .comment) :
    LastComment (nodes ++ [node]) comment := by
  cases commented with
  | absent absent =>
    refine .absent fun earlier listed => ?_
    rcases List.mem_append.mp listed with listed | here
    · exact absent earlier listed
    · exact List.mem_singleton.mp here ▸ other
  | last split kind last carries =>
    subst split
    refine .last (by rw [List.append_assoc, List.cons_append]) kind (fun later listed => ?_) carries
    rcases List.mem_append.mp listed with listed | here
    · exact last later listed
    · exact List.mem_singleton.mp here ▸ other

/-- What is read is what the last comment says. -/
theorem lastComment_lastComment? (nodes : List Node) : LastComment nodes (lastComment? nodes) := by
  induction nodes using List.reverseRecOn with
  | nil => exact .absent (by simp)
  | append_singleton front node ih =>
    by_cases kind : node.kind = .comment
    · have read : lastComment? (front ++ [node]) = some node.commentText := by
        simp [lastComment?, kind]
      exact read ▸ lastComment_concat kind front
    · have read : lastComment? (front ++ [node]) = lastComment? front := by
        simp [lastComment?, kind]
      exact read ▸ ih.concat kind

/-- The text that is read off nodes is what their last comment says. -/
theorem lastComment?_eq_iff {nodes : List Node} {comment : Option String} :
    lastComment? nodes = comment ↔ LastComment nodes comment := by
  constructor
  · rintro rfl
    exact lastComment_lastComment? nodes
  · rintro (absent | ⟨rfl, kind, last, carries⟩)
    · have none : nodes.filter (·.kind == .comment) = [] := by simpa using absent
      rw [lastComment?, none]
      rfl
    · rename_i behind node _
      have none : behind.filter (·.kind == .comment) = [] := by simpa using last
      rw [lastComment?, List.filter_append, List.filter_cons_of_pos (by simp [kind]), none,
        List.getLast?_concat, Option.map_some, Node.commentText_eq_iff.mpr carries]

/-- Nodes have one last comment at most, which says one thing. -/
theorem LastComment.unique {nodes : List Node} {comment comment' : Option String}
    (commented : LastComment nodes comment) (commented' : LastComment nodes comment') :
    comment = comment' :=
  (lastComment?_eq_iff.mpr commented).symm.trans (lastComment?_eq_iff.mpr commented')

/-- An option has the name that its first child gives. -/
theorem name_of_ofNode {node : Node} {option : PropertyOption}
    (success : PropertyOption.ofNode node = .ok option) :
    node.firstChildText? = some option.name := by
  rw [PropertyOption.ofNode] at success
  split at success
  · simp at success
  · split at success
    · simp at success
    · rename_i children
      split at success
      · rw [firstChildText?, children, ← Except.ok.inj success]
        rfl
      · simp at success

/-- Other nodes than options do not designate the identity. -/
theorem designatesIdentity_cons_other {node : Node} (kind : node.kind ≠ .option)
    (rest : List Node) : designatesIdentity (node :: rest) = designatesIdentity rest := by
  simp [designatesIdentity, kind]

/-- Other nodes than options need not be accepted. -/
theorem optionsAccepted_cons_other {node : Node} (kind : node.kind ≠ .option) (rest : List Node) :
    OptionsAccepted (node :: rest) ↔ OptionsAccepted rest := by
  simp [OptionsAccepted, kind]

/-- The nodes behind a type are read if all options among them are accepted; the last comment
counts, and any option may designate the identity. -/
theorem read_eq_ok_iff {nodes : List Node} {start extras : Extras} :
    Extras.read nodes start = .ok extras ↔
      OptionsAccepted nodes ∧
        extras = ⟨(lastComment? nodes).or start.comment,
          start.identity || designatesIdentity nodes⟩ := by
  induction nodes generalizing start with
  | nil =>
    simp [Extras.read, OptionsAccepted, lastComment?, designatesIdentity, eq_comm]
  | cons node rest ih =>
    rw [Extras.read]
    by_cases option : node.kind = .option
    · have notComment : node.kind ≠ .comment := by simp [option]
      rw [lastComment?_cons_other notComment, OptionsAccepted, List.forall_mem_cons,
        designatesIdentity, List.any_cons]
      simp only [option]
      cases read : PropertyOption.ofNode node with
      | error error => simp
      | ok option =>
        simp only [ih, name_of_ofNode read, PropertyOption.isIdentity,
          PropertyOption.identityName, OptionsAccepted, designatesIdentity]
        simp [Bool.or_assoc, beq_eq_decide]
    · rw [designatesIdentity_cons_other option, optionsAccepted_cons_other option]
      by_cases comment : node.kind = .comment
      · rw [lastComment?_cons_comment comment]
        simp only [comment, ih]
        cases lastComment? rest <;> simp
      · rw [lastComment?_cons_other comment]
        cases kind : node.kind <;> simp_all

namespace TypeExpression

/-- A sequence begins with the spelling of one expression at most. -/
theorem Spells.unique {expression expression' : TypeExpression}
    {front front' rest rest' : List Node}
    (spelled : Spells expression front) (spelled' : Spells expression' front')
    (same : front ++ rest = front' ++ rest') :
    expression = expression' ∧ front = front' ∧ rest = rest' := by
  induction spelled generalizing expression' front' rest rest' with
  | name isMarker isToken =>
    cases spelled' with
    | name isMarker' isToken' =>
      simp only [List.cons_append, List.nil_append, List.cons.injEq] at same
      obtain ⟨rfl, rfl, rfl⟩ := same
      exact ⟨rfl, rfl, rfl⟩
    | _ => simp_all
  | list isMarker _ ih =>
    cases spelled' with
    | list isMarker' inner' =>
      simp only [List.cons_append, List.cons.injEq] at same
      obtain ⟨rfl, same⟩ := same
      obtain ⟨rfl, rfl, rfl⟩ := ih inner' same
      exact ⟨rfl, rfl, rfl⟩
    | _ => simp_all
  | set isMarker _ ih =>
    cases spelled' with
    | set isMarker' inner' =>
      simp only [List.cons_append, List.cons.injEq] at same
      obtain ⟨rfl, same⟩ := same
      obtain ⟨rfl, rfl, rfl⟩ := ih inner' same
      exact ⟨rfl, rfl, rfl⟩
    | _ => simp_all
  | map isMarker _ _ keyIh valueIh =>
    cases spelled' with
    | map isMarker' key' value' =>
      simp only [List.cons_append, List.append_assoc, List.cons.injEq] at same
      obtain ⟨rfl, same⟩ := same
      obtain ⟨rfl, rfl, behind⟩ := keyIh key' same
      obtain ⟨rfl, rfl, rfl⟩ := valueIh value' behind
      exact ⟨rfl, rfl, rfl⟩
    | _ => simp_all

/-- What an expression stands for is determined by what its names denote. -/
theorem Denotes.unique {named : String → SchemaType → Prop} {expression : TypeExpression}
    {type type' : SchemaType}
    (functional : ∀ reference type type', named reference type → named reference type' →
      type = type')
    (denotes : Denotes named expression type) (denotes' : Denotes named expression type') :
    type = type' := by
  induction denotes generalizing type' with
  | name found =>
    cases denotes' with
    | name found' => exact functional _ _ _ found found'
  | list _ ih =>
    cases denotes' with
    | list inner' => rw [ih inner']
  | set _ ih =>
    cases denotes' with
    | set inner' => rw [ih inner']
  | map _ _ keyIh valueIh =>
    cases denotes' with
    | map atKey' atValue' => rw [keyIh atKey', valueIh atValue']

end TypeExpression

/-- The node gives a name, spells a type and goes on with other nodes. -/
def Node.SpellsProperty (node : Node) (name : String) (expression : TypeExpression)
    (extras : List Node) : Prop :=
  ∃ token front, node.children = token :: (front ++ extras) ∧ token.text = name ∧
    Spells expression front

/-- A node spells one property at most, since a type is never the front of another. -/
theorem Node.SpellsProperty.unique {node : Node} {name name' : String}
    {expression expression' : TypeExpression} {extras extras' : List Node}
    (spelled : node.SpellsProperty name expression extras)
    (spelled' : node.SpellsProperty name' expression' extras') :
    name = name' ∧ expression = expression' ∧ extras = extras' := by
  obtain ⟨token, front, children, rfl, inner⟩ := spelled
  obtain ⟨token', front', children', rfl, inner'⟩ := spelled'
  rw [children, List.cons.injEq] at children'
  obtain ⟨rfl, same⟩ := children'
  obtain ⟨rfl, _, rfl⟩ := inner.unique inner' same
  exact ⟨rfl, rfl, rfl⟩

namespace Registry

/-- How a property of a type is represented: as the outermost constructor of the type, and for an
enumeration under the qualified name of its declaration. -/
inductive Represents (registry : Registry) : SchemaType → PropertyKind → Prop
  | primitive {name : String} : Represents registry (.primitive name) .primitive
  | blob : Represents registry .blob .blob
  | list {element : SchemaType} : Represents registry (.list element) .list
  | set {element : SchemaType} : Represents registry (.set element) .set
  | map {key value : SchemaType} : Represents registry (.map key value) .map
  | record {id : TypeId} : Represents registry (.record id) .record
  | enumeration {id : TypeId} {declaration : Declaration}
      (registered : registry.declarations[id]? = some declaration) :
      Represents registry (.enumeration id) (.enumeration declaration.name)

/-- The representation that is chosen for a type is the one that it has. -/
theorem kindFor_eq_ok_iff {registry : Registry} {type : SchemaType} {kind : PropertyKind} :
    registry.kindFor type = .ok kind ↔ registry.Represents type kind := by
  constructor
  · intro chosen
    cases type with
    | enumeration id =>
      obtain ⟨name, named, rfl⟩ := map_eq_ok_iff.mp chosen
      obtain ⟨declaration, registered, rfl⟩ := nameOf_eq_ok_iff.mp named
      exact .enumeration registered
    | _ =>
      obtain rfl := Except.ok.inj chosen
      constructor
  · intro represents
    cases represents with
    | enumeration registered =>
      exact map_eq_ok_iff.mpr ⟨_, nameOf_eq_ok_iff.mpr ⟨_, registered, rfl⟩, rfl⟩
    | _ => rfl

/-- A type has one representation at most. -/
theorem Represents.unique {registry : Registry} {type : SchemaType} {kind kind' : PropertyKind}
    (represents : registry.Represents type kind) (represents' : registry.Represents type kind') :
    kind = kind' :=
  Except.ok.inj ((kindFor_eq_ok_iff.mpr represents).symm.trans (kindFor_eq_ok_iff.mpr represents'))

/-- Contents do not matter for how a type is represented. -/
theorem Represents.of_bare {registry registry' : Registry}
    (same : registry'.bare = registry.bare) {type : SchemaType} {kind : PropertyKind}
    (represents : registry.Represents type kind) : registry'.Represents type kind := by
  rw [← kindFor_eq_ok_iff] at represents ⊢
  rw [← kindFor_bare, same, kindFor_bare, represents]

/-- What a property node says of a property of the owner, given what names denote: the property
and whether it is designated as the identity. -/
inductive Describes (registry : Registry) (named : String → SchemaType → Prop)
    (camelCaseKeys : Bool) (owner : TypeId) (node : Node) : Property × Bool → Prop
  | intro {name : String} {expression : TypeExpression} {extras : List Node} {type : SchemaType}
      {kind : PropertyKind} {comment : Option String}
      (spelled : node.SpellsProperty name expression extras)
      (denotes : Denotes named expression type) (accepted : OptionsAccepted extras)
      (represents : registry.Represents type kind) (commented : LastComment extras comment) :
      Describes registry named camelCaseKeys owner node
        (⟨owner, name, type, kind, comment, camelCaseKeys⟩, designatesIdentity extras)

/-- What a node says depends on the meaning of names and on the representation of types only. -/
theorem Describes.mono {registry registry' : Registry} {named named' : String → SchemaType → Prop}
    {camelCaseKeys : Bool} {owner : TypeId} {node : Node} {reading : Property × Bool}
    (weaker : ∀ reference type, named reference type → named' reference type)
    (same : registry'.bare = registry.bare)
    (describes : registry.Describes named camelCaseKeys owner node reading) :
    registry'.Describes named' camelCaseKeys owner node reading := by
  obtain ⟨spelled, denotes, accepted, represents, commented⟩ := describes
  exact .intro spelled (denotes.mono weaker) accepted (represents.of_bare same) commented

/-- A property is read from a node exactly if the node describes it. -/
theorem exists_readProperty_iff {registry : Registry} {camelCaseKeys : Bool} {owner : TypeId}
    {node : Node} {reading : Property × Bool} :
    (∃ name nodes, node.children = name :: nodes ∧
      registry.readProperty camelCaseKeys owner name.text nodes = .ok reading) ↔
      registry.Describes
        (fun reference type => registry.typeNamed (some owner) reference = .ok type)
        camelCaseKeys owner node reading := by
  obtain ⟨property, identity⟩ := reading
  constructor
  · rintro ⟨name, nodes, children, read⟩
    obtain ⟨type, rest, extras, kind, resolved, behind, represented, rfl, rfl⟩ :=
      readProperty_eq_ok_iff.mp read
    obtain ⟨expression, front, rfl, spelled, denotes⟩ := resolveType_eq_ok_iff_spells.mp resolved
    obtain ⟨accepted, rfl⟩ := read_eq_ok_iff.mp behind
    simp only [Extras.none, Option.or_none, Bool.false_or]
    exact .intro ⟨name, front, children, rfl, spelled⟩ denotes accepted
      (kindFor_eq_ok_iff.mp represented) (lastComment_lastComment? rest)
  · rintro ⟨⟨name, front, children, rfl, spelled⟩, denotes, accepted, represents, commented⟩
    obtain rfl := lastComment?_eq_iff.mpr commented
    refine ⟨name, _, children, readProperty_eq_ok_iff.mpr ?_⟩
    refine ⟨_, _, _, _, resolveType_eq_ok_iff_spells.mpr ⟨_, _, rfl, spelled, denotes⟩,
      read_eq_ok_iff.mpr ⟨accepted, rfl⟩, kindFor_eq_ok_iff.mpr represents, ?_, ?_⟩
    · simp [Extras.none]
    · simp [Extras.none]

/-- A type that a name denotes has a representation. -/
private theorem exists_represents_of_typeNamed {registry : Registry} {scope : Option TypeId}
    {reference : String} {type : SchemaType}
    (named : registry.typeNamed scope reference = .ok type) :
    ∃ kind, registry.Represents type kind := by
  rw [typeNamed] at named
  split at named
  · rename_i id _
    split at named
    · rename_i other typed
      obtain rfl := Except.ok.inj named
      obtain ⟨declaration, found, rfl⟩ := map_eq_ok_iff.mp typed
      cases declaration with
      | enumeration type => exact ⟨_, .enumeration (get_eq_ok_iff.mp found)⟩
      | primitive name => exact ⟨_, .primitive⟩
      | blob name => exact ⟨_, .blob⟩
      | record type => exact ⟨_, .record⟩
    · simp at named
  · simp at named

/-- A type that an expression stands for has a representation. -/
theorem exists_represents_of_denotes {registry : Registry} {scope : Option TypeId}
    {expression : TypeExpression} {type : SchemaType}
    (denotes : Denotes (fun reference type => registry.typeNamed scope reference = .ok type)
      expression type) : ∃ kind, registry.Represents type kind := by
  cases denotes with
  | name found => exact exists_represents_of_typeNamed found
  | list => exact ⟨_, .list⟩
  | set => exact ⟨_, .set⟩
  | map => exact ⟨_, .map⟩

/-- A node describes a property as soon as it spells one, every name in the type denotes
something and all options are accepted. -/
theorem exists_describes_iff {registry : Registry} {camelCaseKeys : Bool} {owner : TypeId}
    {node : Node} :
    (∃ reading, registry.Describes
      (fun reference type => registry.typeNamed (some owner) reference = .ok type)
      camelCaseKeys owner node reading) ↔
      ∃ name expression extras, node.SpellsProperty name expression extras ∧
        (∀ reference ∈ expression.references,
          ∃ type, registry.typeNamed (some owner) reference = .ok type) ∧
        OptionsAccepted extras := by
  constructor
  · rintro ⟨_, spelled, denotes, accepted, _, _⟩
    exact ⟨_, _, _, spelled, (exists_denotes_iff _ _).mp ⟨_, denotes⟩, accepted⟩
  · rintro ⟨name, expression, extras, spelled, denoted, accepted⟩
    obtain ⟨type, denotes⟩ := (exists_denotes_iff _ _).mpr denoted
    obtain ⟨kind, represents⟩ := exists_represents_of_denotes denotes
    exact ⟨_, .intro spelled denotes accepted represents (lastComment_lastComment? extras)⟩

end Registry

end SchemaGraph
