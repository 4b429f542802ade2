import TypedClients.Text.Cut

namespace TypedClients.CommandLine

/-- Why arguments are not a command. Asking for help counts as well. -/
inductive UsageError where
  | help
  | version
  | missingSubcommand
  | unknownSubcommand
  | unknownArgument
  | missingArgument
  | badValue
  | unexpectedValue
  | repeatedArgument
deriving DecidableEq, Repr

def UsageError.exitCode : UsageError → Nat
  | .help => 0
  | .version => 0
  | _ => 2

inductive ValueKind where
  | path
  | text
  | choice (names : List String)
deriving DecidableEq, Repr

def ValueKind.accepts (k : ValueKind) (value : String) : Bool :=
  match k with
  | .path => value != ""
  | .text => true
  | .choice names => names.contains value

structure OptionSpec where
  long : String
  short : Option Char := none
  value : Option ValueKind
  required : Bool := false
deriving DecidableEq, Repr

structure CommandSpec where
  options : List OptionSpec
  positional : Option OptionSpec := none
deriving Repr

/-- The arguments read so far. `open?` is the last option, whose value may still come. -/
structure Reading where
  values : List (String × String) := []
  open? : Option (OptionSpec × Option String) := none
  positionals : Nat := 0
  onlyPositionals : Bool := false

namespace Reading

def has (r : Reading) (name : String) : Bool := r.values.any fun (n, _) => n == name

def add (r : Reading) (o : OptionSpec) (value : String) : Except UsageError Reading :=
  if r.has o.long then .error .repeatedArgument
  else if o.value.all fun k => k.accepts value then
    .ok { r with values := r.values ++ [(o.long, value)] }
  else .error .badValue

def close (r : Reading) : Except UsageError Reading :=
  match r.open? with
  | none => .ok r
  | some (_, none) => .error .badValue
  | some (o, some value) => { r with open? := none }.add o value

/-- An option by itself; its value may follow. -/
def takeOption (r : Reading) (o : OptionSpec) : Except UsageError Reading := do
  let r ← r.close
  match o.value with
  | some _ => return { r with open? := some (o, none) }
  | none => r.add o ""

def takeAttached (r : Reading) (o : OptionSpec) (value : String) : Except UsageError Reading := do
  let r ← r.close
  r.add o value

def takeLong (r : Reading) (c : CommandSpec) (argument : String) : Except UsageError Reading :=
  let (name, value) := match Text.splitOnce? '=' argument with
    | some (name, value) => (name, some value)
    | none => (argument, none)
  match c.options.find? fun o => o.long == name, value with
  | some o, some value => if o.value.isSome then r.takeAttached o value else .error .unexpectedValue
  | some o, none => r.takeOption o
  | none, some _ => .error (if name = "help" then .unexpectedValue else .unknownArgument)
  | none, none =>
    if name = "help" then r.close.bind fun _ => .error .help else .error .unknownArgument

/-- Flags may share a hyphen; the rest behind an option is its value. -/
def takeShort (r : Reading) (c : CommandSpec) : List Char → Except UsageError Reading
  | [] => .ok r
  | l :: rest =>
    match c.options.find? fun o => o.short == some l with
    | some o =>
      match o.value, rest with
      | none, rest => (r.takeOption o).bind fun r => r.takeShort c rest
      | some _, [] => r.takeOption o
      | some _, '=' :: value => r.takeAttached o (String.ofList value)
      | some _, value => r.takeAttached o (String.ofList value)
    | none => if l = 'h' then r.close.bind fun _ => .error .help else .error .unknownArgument

def takePositional (r : Reading) (c : CommandSpec) (argument : String) :
    Except UsageError Reading :=
  match c.positional with
  | some o =>
    if r.positionals = 0 then do
      let r ← r.close
      return { r with open? := some (o, some argument), positionals := 1 }
    else .error .unknownArgument
  | none => .error .unknownArgument

def take (r : Reading) (c : CommandSpec) (argument : String) : Except UsageError Reading :=
  if r.onlyPositionals then r.takePositional c argument
  else if argument = "--" then .ok { r with onlyPositionals := true }
  else match Text.afterLead? "--" argument, argument.toList with
    | some long, _ => r.takeLong c long
    | none, '-' :: l :: rest => r.takeShort c (l :: rest)
    | none, _ =>
      match r.open? with
      | some (o, none) => .ok { r with open? := some (o, some argument) }
      | _ => r.takePositional c argument

end Reading

def CommandSpec.read (c : CommandSpec) (arguments : List String) :
    Except UsageError (List (String × String)) := do
  let r ← arguments.foldlM (fun r a => r.take c a) ({} : Reading)
  let r ← r.close
  if (c.options ++ c.positional.toList).all fun o => !o.required || r.has o.long then
    return r.values
  else throw .missingArgument

inductive SummaryFormat where
  | yaml
  | json
deriving DecidableEq, Repr

inductive Command where
  | generate (config input target : Option String)
  | validate (input : String)
  | inspect (input : String) (format : SummaryFormat)
  | init (force : Bool)
  | completions (shell : String)
deriving DecidableEq, Repr

def inputOption (required : Bool) : OptionSpec :=
  { long := "input", short := some 'i', value := some .path, required }

def generateSpec : CommandSpec where
  options := [{ long := "config", short := some 'c', value := some .path }, inputOption false,
    { long := "target", value := some .text }]

def validateSpec : CommandSpec where
  options := [inputOption true]

def inspectSpec : CommandSpec where
  options := [inputOption true, { long := "format", value := some (.choice ["yaml", "json"]) }]

def initSpec : CommandSpec where
  options := [{ long := "force", value := none }]

def shells : List String := ["bash", "elvish", "fish", "powershell", "zsh"]

def completionsSpec : CommandSpec where
  options := []
  positional := some { long := "shell", value := some (.choice shells), required := true }

def subcommands : List String := ["generate", "validate", "inspect", "init", "completions", "help"]

def readCommand (name : String) (arguments : List String) : Except UsageError Command := do
  match name with
  | "generate" =>
    let values ← generateSpec.read arguments
    return .generate (values.lookup "config") (values.lookup "input") (values.lookup "target")
  | "validate" =>
    let values ← validateSpec.read arguments
    return .validate ((values.lookup "input").getD "")
  | "inspect" =>
    let values ← inspectSpec.read arguments
    return .inspect ((values.lookup "input").getD "")
      (if values.lookup "format" == some "json" then .json else .yaml)
  | "init" =>
    let values ← initSpec.read arguments
    return .init (values.lookup "force").isSome
  | "completions" =>
    let values ← completionsSpec.read arguments
    return .completions ((values.lookup "shell").getD "")
  | _ => throw .unknownSubcommand

/-- Help may be asked for one subcommand, and no subcommand has others. -/
def readHelp (arguments : List String) : UsageError :=
  match arguments with
  | [] => .help
  | [name] => if subcommands.contains name then .help else .unknownSubcommand
  | _ => .unknownSubcommand

def readLeadingOption (argument : String) : UsageError :=
  match Text.afterLead? "--" argument, argument.toList with
  | some long, _ =>
    match Text.splitOnce? '=' long with
    | some (name, _) =>
      if name = "help" ∨ name = "version" then .unexpectedValue else .unknownArgument
    | none =>
      if long = "help" then .help else if long = "version" then .version else .unknownArgument
  | none, _ :: l :: _ => if l = 'h' then .help else if l = 'V' then .version else .unknownArgument
  | none, _ => .unknownArgument

def readArguments (arguments : List String) : Except UsageError Command :=
  match arguments with
  | [] => .error .missingSubcommand
  | first :: rest =>
    if first = "help" then .error (readHelp rest)
    else if subcommands.contains first then readCommand first rest
    else if first = "--" then
      match rest with
      | [] => .error .missingSubcommand
      | name :: _ =>
        .error (if subcommands.contains name then .unknownArgument else .unknownSubcommand)
    else if Text.hasLead "-" first && first != "-" then .error (readLeadingOption first)
    else .error .unknownSubcommand

end TypedClients.CommandLine
