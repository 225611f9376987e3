import EntitySql.Config
import EntitySql.Ddl.Generate
import EntitySql.Query.Compile
import EntitySql.Query.Json
import EntitySql.Schema.Json
import EntitySql.Text.Plain

/-!
The command line: arguments give a command and settings, and a command gives what is printed and an exit code.
-/
namespace EntitySql.CommandLine

/-- What is asked for. -/
inductive Command where
  | ddl (catalog : String)
  | drop (catalog : String)
  | compile (catalog : String)
  /-- Mints so many ids. -/
  | nextId (count : Nat)
  deriving DecidableEq, Repr, Inhabited

/-- A command with the settings given beside it. -/
structure Invocation where
  configPath : Option String
  dialect : Option Dialect
  command : Command
  deriving DecidableEq, Repr, Inhabited

/-- The end of a run: exit code, output, and the message of an error. -/
structure Outcome where
  exit : Nat
  stdout : String
  error : Option String := none
  deriving DecidableEq, Repr, Inhabited

/-- The names of the commands, with what they do. -/
def commandNames : List (String × String) :=
  [("ddl", "Print CREATE statements for a catalog"), ("drop", "Print DROP statements for a catalog"),
    ("compile", "Print the compiled catalog as JSON"), ("next-id", "Mint identifiers")]

/-- Why arguments are not a command. -/
inductive Refusal where
  /-- They are wrong. -/
  | usage
  /-- They ask for the version. -/
  | version
  /-- They ask for help, on a command if one is given. -/
  | help (command : Option String)
  deriving DecidableEq, Repr, Inhabited

/-- An argument, told apart by its dashes. -/
inductive Argument where
  | long (name : String) (value : Option String)
  | short (letters : List Char)
  /-- Two dashes, after which all arguments are values. -/
  | escape
  | value (text : String)
  deriving DecidableEq, Repr, Inhabited

/-- The kind of an argument. A single dash is a value. -/
def Argument.ofText (text : String) : Argument :=
  match text.toList with
  | ['-', '-'] => .escape
  | '-' :: '-' :: rest =>
    let name := String.ofList (rest.takeWhile (· ≠ '='))
    match rest.dropWhile (· ≠ '=') with
    | _ :: assigned => .long name (some (String.ofList assigned))
    | [] => .long name none
  | '-' :: c :: rest => .short (c :: rest)
  | _ => .value text

/-- The options and the value found on one level of the command line. -/
structure Level where
  config : Option String := none
  dialect : Option Dialect := none
  count : Option Nat := none
  catalog : Option String := none
  /-- The last option, if its value is an argument of its own that is not yet looked at. -/
  pending : Option (String × String) := none
  deriving DecidableEq, Repr, Inhabited

/-- A path, which is not empty. -/
def path? (text : String) : Except Refusal String :=
  if text.isEmpty then .error .usage else .ok text

/-- A natural number of 64 bits in decimal digits, with or without a plus sign. -/
def count? (text : String) : Except Refusal Nat :=
  let digits := match text.toList with
    | '+' :: rest => rest
    | cs => cs
  let n := digits.foldl (fun n c => n * 10 + (c.toNat - 48)) 0
  if digits.isEmpty || !digits.all Char.isDigit || n ≥ UInt64.size then .error .usage else .ok n

/-- Sets an option, once for each level. Only the command that mints ids takes a count. -/
def Level.set (l : Level) (command : Option String) (name value : String) : Except Refusal Level :=
  match name with
  | "config" =>
    if l.config.isSome then .error .usage else do return { l with config := some (← path? value) }
  | "dialect" =>
    match l.dialect, Dialect.ofName? value with
    | none, some d => .ok { l with dialect := some d }
    | _, _ => .error .usage
  | "count" =>
    if l.count.isSome || command ≠ some "next-id" then .error .usage
    else do return { l with count := some (← count? value) }
  | _ => .error .usage

def Level.settle (l : Level) (command : Option String) : Except Refusal Level :=
  match l.pending with
  | some (name, value) => { l with pending := none }.set command name value
  | none => .ok l

/-- Adds a value that is no option's. All commands but the one that mints ids take a single one, their catalog. -/
def Level.add (l : Level) (command value : String) : Except Refusal Level :=
  if l.catalog.isSome || command = "next-id" then .error .usage
  else do return { l with catalog := some (← path? value) }

def Level.addAll (command : String) : Level → List String → Except Refusal Level
  | l, [] => .ok l
  | l, value :: more => do addAll command (← l.add command value) more

/-- Whether an option of a level takes a value. -/
def takesValue (command : Option String) (name : String) : Bool :=
  name = "config" || name = "dialect" || (name = "count" && command = some "next-id")

/-- Reads the arguments of a command, or those before it, which end at the first value. They are looked at in their
order, up to the one that asks for help; an option right before that first value stays pending. -/
def readLevel (command : Option String) : Level → List String → Except Refusal (Level × List String)
  | l, [] => do return (← l.settle command, [])
  | l, arg :: rest =>
    match Argument.ofText arg, command with
    | .value text, none => .ok (l, text :: rest)
    | .value text, some name => do readLevel command (← (← l.settle command).add name text) rest
    | .escape, none => .error .usage
    | .escape, some name => do return (← (← l.settle command).addAll name rest, [])
    | .long name (some value), _ => do readLevel command (← (← l.settle command).set command name value) rest
    | .short letters, _ => do
      let _ ← l.settle command
      match letters with
      | 'h' :: _ => throw (.help command)
      | 'V' :: _ => throw (if command.isNone then .version else .usage)
      | _ => throw .usage
    | .long name none, _ => do
      let l ← l.settle command
      if name = "help" then throw (.help command)
      else if name = "version" && command.isNone then throw .version
      else if takesValue command name then
        match rest with
        | [] => throw .usage
        | text :: rest =>
          match Argument.ofText text with
          | .value value => readLevel command { l with pending := some (name, value) } rest
          | _ => throw .usage
      else throw .usage

def commandOf (name : String) (l : Level) : Except Refusal Command :=
  match name, l.catalog with
  | "ddl", some catalog => .ok (.ddl catalog)
  | "drop", some catalog => .ok (.drop catalog)
  | "compile", some catalog => .ok (.compile catalog)
  | "next-id", none => .ok (.nextId (l.count.getD 1))
  | _, _ => .error .usage

def helpOn : List String → Refusal
  | [] => .help none
  | [name] =>
    if name = "help" || commandNames.any (·.1 = name) then .help (some name) else .usage
  | _ => .usage

/-- Reads the arguments. An option given after the command counts more than one before it, and any option more than
the environment, whose path of settings must not be empty wherever it stands in. -/
def readArguments (environment : Option String) (args : List String) : Except Refusal Invocation := do
  let (outer, rest) ← readLevel none {} args
  match rest with
  | [] => .error .usage
  | name :: rest =>
    if name = "help" then .error (helpOn rest)
    else if !commandNames.any (·.1 = name) then .error .usage
    else
      let (inner, _) ← readLevel (some name) {} rest
      let command ← commandOf name inner
      let outer ← outer.settle none
      if environment = some "" && (inner.config.isNone || outer.config.isNone) then .error .usage
      else .ok {
        configPath := (inner.config.or outer.config).or environment
        dialect := inner.dialect.or outer.dialect
        command }

def versionText : String :=
  "sqlforge 0.1.0\n"

/-- The second column of a help text, whose lines start below each other. -/
def helpColumn (text : String) : String :=
  String.ofList (text.toList.flatMap fun c => if c = '\n' then c :: List.replicate 27 ' ' else [c]) ++ "\n"

/-- The help on the option of a path of settings, which shows the one of the environment. -/
def configOption (environment : Option String) : String :=
  "      --config <CONFIG>    " ++
    helpColumn (Text.plain ("TOML configuration file [env: SQLFORGE_CONFIG=" ++ environment.getD "" ++ "]"))

def countOption : String :=
  "      --count <COUNT>      [default: 1]\n"

def dialectOption : String :=
  "      --dialect <DIALECT>  Target dialect, overriding the configuration\n"

def helpAbout : String :=
  "Print this message or the help of the given subcommand(s)"

def helpText (environment : Option String) : Option String → String
  | none =>
    "Compile entity and repository metadata into DDL and parameterized SQL\n\n" ++
      "Usage: sqlforge [OPTIONS] <COMMAND>\n\nCommands:\n" ++ String.join ((commandNames ++ [("help", helpAbout)]).map fun (name, about) =>
        "  " ++ name ++ String.ofList (List.replicate (9 - name.length) ' ') ++ about ++ "\n") ++
      "\nOptions:\n" ++ configOption environment ++ dialectOption ++
      "  -h, --help               Print help\n  -V, --version            Print version\n"
  | some name =>
    match commandNames.find? (·.1 = name) with
    | none =>
      helpAbout ++ "\n\nUsage: sqlforge help [COMMAND]...\n\nArguments:\n" ++
        "  [COMMAND]...  Print help for the subcommand(s)\n"
    | some (_, about) =>
      let mints := name = "next-id"
      about ++ "\n\nUsage: sqlforge " ++ name ++ (if mints then " [OPTIONS]\n" else " [OPTIONS] <CATALOG>\n") ++
        (if mints then "" else "\nArguments:\n  <CATALOG>  \n") ++
        "\nOptions:\n" ++ configOption environment ++ (if mints then countOption else "") ++ dialectOption ++
        "  -h, --help               Print help\n"

def Refusal.outcome (environment : Option String) : Refusal → Outcome
  | usage => ⟨2, "", some "these arguments are no command, see --help"⟩
  | version => ⟨0, versionText, none⟩
  | help command => ⟨0, helpText environment command, none⟩

/-- Why a command fails. -/
inductive Failure where
  | configUnreadable (path reason : String)
  | configInvalid
  | catalogUnreadable (path : String)
  | catalogInvalid (path : String)
  | compile (error : CompileError)
  | id (error : Ids.IdError)
  deriving DecidableEq, Repr, Inhabited

def Failure.message : Failure → String
  | configUnreadable path reason => "Failed to read config file " ++ path ++ ": " ++ reason
  | configInvalid => "Invalid config:"
  | catalogUnreadable path => "reading catalog " ++ path
  | catalogInvalid path => "parsing catalog " ++ path
  | compile error => error.message
  | id error => error.message

/-- The outcome of a failure, after what has been printed. -/
def Failure.outcome (f : Failure) (printed : String) : Outcome :=
  ⟨1, printed, some f.message⟩

/-- Files by their paths: the text, or why there is none. -/
abbrev Files := String → Except String String

def Invocation.config (i : Invocation) (files : Files) : Except Failure Config := do
  let config ← match i.configPath with
    | none => pure {}
    | some path =>
      match files path with
      | .error reason => throw (.configUnreadable path reason)
      | .ok text =>
        match Config.ofToml? text with
        | some config => pure config
        | none => throw .configInvalid
  return match i.dialect with
    | some d => { config with compiler := { config.compiler with dialect := d } }
    | none => config

def readCatalog (files : Files) (path : String) : Except Failure Catalog :=
  match files path with
  | .error _ => throw (.catalogUnreadable path)
  | .ok text =>
    match Catalog.ofText text with
    | .ok c => return c
    | .error _ => throw (.catalogInvalid path)

def catalogOutput (config : CompilerConfig) (c : Catalog) : Command → Except CompileError String
  | .ddl _ => do
    let statements ← Ddl.generate config.dialect config.createSchemas (← c.link)
    return Ddl.script statements
  | .drop _ => do
    let linked ← c.link
    return String.join ((Ddl.drops config.dialect linked).map (· ++ ";\n"))
  | .compile _ => do
    let compiled ← c.compile config
    return compiled.toJson.pretty ++ "\n"
  | .nextId _ => return ""

def Command.catalog? : Command → Option String
  | ddl path => some path
  | drop path => some path
  | compile path => some path
  | nextId _ => none

/-- A run as far as it does not depend on the time: its outcome, or so many ids to mint with a generator. -/
inductive Run where
  | done (outcome : Outcome)
  | mint (config : GeneratorConfig) (count : Nat)
  deriving Repr, Inhabited

def Invocation.run (i : Invocation) (files : Files) : Run :=
  match i.config files with
  | .error f => .done (f.outcome "")
  | .ok config =>
    match i.command with
    | .nextId count => .mint config.generator count
    | command =>
      let output : Except Failure String := do
        let c ← readCatalog files (command.catalog?.getD "")
        match catalogOutput config.compiler c command with
        | .ok text => return text
        | .error e => throw (.compile e)
      match output with
      | .ok text => .done ⟨0, text, none⟩
      | .error f => .done (f.outcome "")

def run (environment : Option String) (files : Files) (args : List String) : Run :=
  match readArguments environment args with
  | .error refusal => .done (refusal.outcome environment)
  | .ok invocation => invocation.run files

def idLines (ids : List Nat) : String :=
  String.join (ids.map fun id => toString id ++ "\n")

/-- The outcome of a run on a host with a worker and a clock, if it comes to an end within `patience` readings for
each id. -/
def Run.outcome? (r : Run) (hostWorker patience : Nat) (clock : Ids.Clock) : Option Outcome :=
  match r with
  | .done outcome => some outcome
  | .mint config count =>
    match config.start hostWorker clock with
    | (.error e, _) => some ((Failure.id e).outcome "")
    | (.ok g, position) =>
      (g.mint patience clock count position).map fun (ids, error, _) =>
        match error with
        | some e => (Failure.id e).outcome (idLines ids)
        | none => ⟨0, idLines ids, none⟩

end EntitySql.CommandLine
