/-!
# The arguments of the command line

Arguments are read from left to right. The general options may stand before or behind the
command; every option may be given once in either place, and a value that is given behind the
command wins. Flags of one letter may be joined behind one dash. An option takes its value from
the rest of its argument or from the next argument, which may not begin with a dash unless it
is nothing else. Behind two dashes alone every argument stands for itself.
-/

namespace SchemaGraph.CommandLine

/-- The options. -/
inductive Name
  | config
  | verbose
  | quiet
  | camelCaseKeys
  | output
  | help
  | version
deriving DecidableEq, Repr

/-- The commands. -/
inductive Verb
  | compile
  | initConfig
deriving DecidableEq, Repr

namespace Name

/-- All options. -/
def all : List Name :=
  [config, verbose, quiet, camelCaseKeys, output, help, version]

/-- The word behind two dashes. -/
def word : Name → String
  | config => "config"
  | verbose => "verbose"
  | quiet => "quiet"
  | camelCaseKeys => "camel-case-keys"
  | output => "output"
  | help => "help"
  | version => "version"

/-- The letter behind one dash. -/
def letter? : Name → Option Char
  | config => some 'c'
  | verbose => some 'v'
  | quiet => some 'q'
  | camelCaseKeys => none
  | output => some 'o'
  | help => some 'h'
  | version => some 'V'

/-- The option has a value. -/
def takesValue : Name → Bool
  | config => true
  | output => true
  | _ => false

/-- The option can be given in a place: in front of the commands, or behind one of them. -/
def isKnown : Option Verb → Name → Bool
  | place, output => place == some .compile
  | place, version => place == none
  | _, _ => true

end Name

namespace Verb

/-- All commands. -/
def all : List Verb :=
  [compile, initConfig]

/-- The command as it is written. -/
def word : Verb → String
  | compile => "compile"
  | initConfig => "init-config"

/-- How many paths the command takes at most. -/
def mostPaths : Verb → Nat
  | compile => 1
  | initConfig => 1

end Verb

/-- Why no command is carried out. -/
inductive Refusal
  /-- The arguments make no sense. -/
  | usage
  | help
  | version
deriving DecidableEq, Repr

/-- What was given in one place. -/
structure Given where
  flags : List Name
  values : List (Name × String)
  paths : List String
deriving DecidableEq, Repr

namespace Given

/-- Nothing was given. -/
def none : Given :=
  ⟨[], [], []⟩

/-- The value of an option. -/
def value? (given : Given) (name : Name) : Option String :=
  (given.values.find? (·.1 == name)).map Prod.snd

/-- Add a flag. -/
def addFlag (given : Given) : Name → Except Refusal Given
  | .help => .error .help
  | .version => .error .version
  | name =>
    if given.flags.contains name then .error .usage
    else .ok { given with flags := given.flags ++ [name] }

/-- Add an option with its value. -/
def addValue (given : Given) (name : Name) (value : String) : Except Refusal Given :=
  if (given.value? name).isSome || value.isEmpty then .error .usage
  else .ok { given with values := given.values ++ [(name, value)] }

/-- Add a path behind a command. -/
def addPath (verb : Verb) (given : Given) (path : String) : Except Refusal Given :=
  if given.paths.length < verb.mostPaths && !path.isEmpty then
    .ok { given with paths := given.paths ++ [path] }
  else .error .usage

/-- Add paths behind a command. -/
def addPaths (verb : Verb) (given : Given) : List String → Except Refusal Given
  | [] => .ok given
  | path :: rest =>
    match given.addPath verb path with
    | .ok more => more.addPaths verb rest
    | .error refusal => .error refusal

/-- Add what stands behind one dash. An option whose value is still to come is handed back. -/
def addLetters (place : Option Verb) (given : Given) :
    List Char → Except Refusal (Given × Option Name)
  | [] => .ok (given, .none)
  | letter :: rest =>
    match Name.all.find? fun name => name.letter? == some letter && name.isKnown place with
    | .none => .error .usage
    | some name =>
      if name.takesValue then
        match rest with
        | [] => .ok (given, some name)
        | '=' :: value => (given.addValue name (String.ofList value)).map (·, .none)
        | value => (given.addValue name (String.ofList value)).map (·, .none)
      else
        match given.addFlag name with
        | .ok more => more.addLetters place rest
        | .error refusal => .error refusal

/-- Add what stands behind two dashes. An option whose value is still to come is handed back. -/
def addWord (place : Option Verb) (given : Given) (text : List Char) :
    Except Refusal (Given × Option Name) :=
  let word := String.ofList (text.takeWhile (· != '='))
  match Name.all.find? fun name => name.word == word && name.isKnown place with
  | .none => .error .usage
  | some name =>
    match name.takesValue, text.dropWhile (· != '=') with
    | true, '=' :: value => (given.addValue name (String.ofList value)).map (·, .none)
    | true, _ => .ok (given, some name)
    | false, [] => (given.addFlag name).map (·, .none)
    | false, _ => .error .usage

end Given

/-- What kind of thing an argument is. -/
inductive Shape
  /-- Two dashes alone. -/
  | barrier
  /-- What stands behind two dashes. -/
  | word (text : List Char)
  /-- What stands behind one dash. -/
  | letters (text : List Char)
  /-- Anything else. -/
  | plain
deriving DecidableEq, Repr

/-- The kind of an argument. -/
def Shape.ofChars : List Char → Shape
  | ['-', '-'] => barrier
  | '-' :: '-' :: text => word text
  | '-' :: c :: text => letters (c :: text)
  | _ => plain

/-- Read the arguments behind a command. An option may wait for its value. -/
def readBehind (verb : Verb) : Option Name → Given → List String → Except Refusal Given
  | .none, given, [] => .ok given
  | some _, _, [] => .error .usage
  | some name, given, argument :: rest =>
    if Shape.ofChars argument.toList = .plain then
      match given.addValue name argument with
      | .ok more => readBehind verb .none more rest
      | .error refusal => .error refusal
    else .error .usage
  | .none, given, argument :: rest =>
    match Shape.ofChars argument.toList with
    | .barrier => given.addPaths verb rest
    | .word text =>
      match given.addWord (some verb) text with
      | .ok (more, waiting) => readBehind verb waiting more rest
      | .error refusal => .error refusal
    | .letters text =>
      match given.addLetters (some verb) text with
      | .ok (more, waiting) => readBehind verb waiting more rest
      | .error refusal => .error refusal
    | .plain =>
      match given.addPath verb argument with
      | .ok more => readBehind verb .none more rest
      | .error refusal => .error refusal

/-- What asking for help in words comes to. -/
def helpOn : List String → Refusal
  | [] => .help
  | [topic] =>
    if topic = "help" ∨ (Verb.all.any (·.word == topic)) = true then .help else .usage
  | _ => .usage

/-- Read all arguments: what is given in front of the command, the command, and what is given
behind it. -/
def readArguments : Option Name → Given → List String → Except Refusal (Given × Verb × Given)
  | _, _, [] => .error .usage
  | some name, given, argument :: rest =>
    if Shape.ofChars argument.toList = .plain then
      match given.addValue name argument with
      | .ok more => readArguments .none more rest
      | .error refusal => .error refusal
    else .error .usage
  | .none, given, argument :: rest =>
    match Shape.ofChars argument.toList with
    | .barrier => .error .usage
    | .word text =>
      match given.addWord .none text with
      | .ok (more, waiting) => readArguments waiting more rest
      | .error refusal => .error refusal
    | .letters text =>
      match given.addLetters .none text with
      | .ok (more, waiting) => readArguments waiting more rest
      | .error refusal => .error refusal
    | .plain =>
      match Verb.all.find? (·.word == argument) with
      | some verb => (readBehind verb .none Given.none rest).map fun behind => (given, verb, behind)
      | .none => .error (if argument = "help" then helpOn rest else .usage)

/-- The general options. -/
structure Options where
  config : Option String
  verbose : Bool
  quiet : Bool
  camelCaseKeys : Bool
deriving DecidableEq, Repr

/-- What is to be done. -/
inductive Command
  /-- Compile a schema, and write a report to a file. -/
  | compile (schema : String) (report : Option String)
  /-- Write the default settings to a file. -/
  | initConfig (path : String)
deriving DecidableEq, Repr

/-- The file of the settings unless another one is named. -/
def usualConfig : String := "datagen.toml"

namespace Options

/-- The general options from both places. -/
def ofGiven (front behind : Given) : Options :=
  let flags := front.flags ++ behind.flags
  ⟨(behind.value? .config).or (front.value? .config), flags.contains .verbose,
    flags.contains .quiet, flags.contains .camelCaseKeys⟩

end Options

namespace Command

/-- The command with what is given behind it. -/
def ofGiven (behind : Given) : Verb → Except Refusal Command
  | .compile =>
    match behind.paths with
    | schema :: _ => .ok (compile schema (behind.value? .output))
    | [] => .error .usage
  | .initConfig => .ok (initConfig (behind.paths.head?.getD usualConfig))

end Command

/-- What the arguments ask for. -/
def parse (arguments : List String) : Except Refusal (Options × Command) :=
  match readArguments .none Given.none arguments with
  | .ok (front, verb, behind) =>
    (Command.ofGiven behind verb).map fun command => (Options.ofGiven front behind, command)
  | .error refusal => .error refusal

end SchemaGraph.CommandLine
