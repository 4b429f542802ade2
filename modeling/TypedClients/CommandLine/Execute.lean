import TypedClients.Client.Backend
import TypedClients.CommandLine.Arguments
import TypedClients.CommandLine.DefaultConfig
import TypedClients.CommandLine.Inspect
import TypedClients.CommandLine.Workspace
import TypedClients.Disk.Basic
import TypedClients.Document.Parse
import TypedClients.Generator.Run
import TypedClients.Yaml.Printer
import TypedClients.Zod.Backend

namespace TypedClients.CommandLine

def registry : Registry := Zod.registerAll (Client.registerAll {})

inductive ConfigError where
  | unreadable (path reason : String)
  | malformed (path : String)
deriving DecidableEq, Repr

inductive Cause where
  | text (s : String)
  | document (e : ParseError)
  | system (reason : String)
  | config (e : ConfigError)
  | disk (e : DiskError)
deriving DecidableEq, Repr

abbrev Failure := List Cause

def Cause.messages : Cause → List String
  | .text s => [s]
  | .document .yaml => ["failed to parse YAML"]
  | .document .json => ["failed to parse JSON"]
  | .document (.unsupportedVersion v) => ["unsupported OpenAPI version: " ++ v]
  | .system reason => [reason]
  | .config (.unreadable path reason) =>
    ["failed to read config " ++ path ++ ": " ++ reason, reason]
  | .config (.malformed path) => ["failed to parse config " ++ path]
  | .disk e => [e.message, e.reason]

def failureText (f : Failure) : String := Text.join ": " (f.flatMap Cause.messages)

def runCauses : RunError → Failure
  | .resolve e => [.text (RunError.resolve e).message, .text e.message]
  | e => [.text e.message]

structure Outcome where
  stdout : String := ""
  stderr : String := ""
  failure : Failure := []

def Outcome.exitCode (o : Outcome) : Nat := if o.failure.isEmpty then 0 else 1

def Outcome.fail (failure : Failure) : Outcome := { failure }

section

variable {m : Type → Type} [Monad m]

/-- A configuration file may be missing. -/
def loadConfig (d : Disk m) (path : String) : m (Except ConfigError (Option Config)) := do
  match ← d.read path with
  | .missing => return .ok none
  | .unreadable reason => return .error (.unreadable path reason)
  | .text content =>
    match readYaml Config.read content with
    | some c => return .ok (some c)
    | none => return .error (.malformed path)

def parseNamed (path content : String) : Except ParseError Document :=
  if Path.extension? path = some "json" then Document.parseJson content
  else Document.parseYaml content

def loadDocument (d : Disk m) (path : String) : m (Except Failure Document) := do
  let failed : Cause := .text ("failed to read " ++ path)
  match ← d.read path with
  | .missing => return .error [failed, .system "No such file or directory"]
  | .unreadable reason => return .error [failed, .system reason]
  | .text content =>
    return (parseNamed path content).mapError fun e =>
      [.text ("failed to parse " ++ path), .document e]

def runTarget (d : Disk m) (doc : Document) (target : Target) : m (Except Failure Report) := do
  let failed (what : String) : Cause := .text (what ++ " \x60" ++ target.name ++ "\x60")
  match registry.run doc target with
  | .error e => return .error (.text ("target \x60" ++ target.name ++ "\x60 failed") :: runCauses e)
  | .ok report =>
    match ← d.writeFiles target.output report.files with
    | .error e => return .error [failed "failed to write target", .disk e]
    | .ok () =>
      match ← d.writeIndexes target.output target.incrementalIndex report.indexes with
      | .error e => return .error [failed "failed to write index for target", .disk e]
      | .ok () => return .ok report

def runTargets (d : Disk m) (doc : Document) :
    List Target → m (List (Target × Except Failure Report))
  | [] => return []
  | t :: rest => do
    let result ← runTarget d doc t
    let results ← runTargets d doc rest
    return (t, result) :: results

def targetLines (t : Target) : Except Failure Report → List String
  | .ok r =>
    ("Generated " ++ Decimal.digitText (r.files.length + r.indexes.length) ++ " files for \x60" ++
      t.name ++ "\x60 in " ++ t.output ++ " (" ++ Decimal.digitText r.operations ++
      " operations, " ++ Decimal.digitText r.models ++ " models)") ::
      r.errors.map fun e => "  error: " ++ e.message
  | .error f => ["error: " ++ failureText f]

/-- A target that could not be run counts as one failure. -/
def failureCount : Except Failure Report → Nat
  | .ok r => r.errors.length
  | .error _ => 1

def linesText (lines : List String) : String := Text.join "" (lines.map (· ++ "\n"))

def writeWorkspace (d : Disk m) (workspace : Option String) (targets : List Target) :
    m (Except Failure Unit) := do
  match workspace with
  | none => return .ok ()
  | some w =>
    if targets.isEmpty then return .ok ()
    else
      let written ← d.writeIndex w (workspaceIndex w targets) true
      return written.mapError fun e => [.text ("failed to write workspace index in " ++ w), .disk e]

def isOk : Except Failure Report → Bool
  | .ok _ => true
  | .error _ => false

def generateTargets (d : Disk m) (doc : Document) (workspace : Option String)
    (targets : List Target) : m Outcome := do
  let results ← runTargets d doc targets
  let stderr := linesText (results.flatMap fun (t, r) => targetLines t r)
  let succeeded := (results.filter fun (_, r) => isOk r).map Prod.fst
  match ← writeWorkspace d workspace succeeded with
  | .error failure => return { stderr, failure }
  | .ok () =>
    let failures := results.foldl (fun count (_, r) => count + failureCount r) 0
    if failures = 0 then return { stderr }
    else return { stderr, failure :=
      [.text (Decimal.digitText failures ++ " output unit(s) failed to generate")] }

def executeGenerate (d : Disk m) (config input target : Option String) : m Outcome := do
  let path := config.getD configFileName
  match ← loadConfig d path with
  | .error e => return .fail [.text ("failed to load " ++ path), .config e]
  | .ok found =>
    let config := found.getD {}
    match ← loadDocument d (input.getD config.input) with
    | .error f => return .fail f
    | .ok doc =>
      match selectTargets config.targets target with
      | .error e => return .fail [.text e.message]
      | .ok targets => generateTargets d doc config.workspace targets

def validateDocument (input : String) (doc : Document) : Outcome :=
  let head := ["Valid OpenAPI " ++ doc.openapi ++ " spec: " ++ doc.info.title,
    "  Version: " ++ doc.info.version, "  Paths: " ++ Decimal.digitText doc.paths.length]
  match doc.resolve with
  | .error e =>
    { stderr := linesText head
      failure := [.text ("failed to resolve " ++ input), .text e.message] }
  | .ok resolved =>
    let head := head ++ ["  Schemas: " ++ Decimal.digitText resolved.arena.schemas.length]
    match buildEndpoints resolved {} with
    | .error e => { stderr := linesText head, failure := [.text e.message] }
    | .ok endpoints =>
      { stderr := linesText (head ++ ["  Operations: " ++ Decimal.digitText endpoints.length,
          "Validation successful."]) }

def executeValidate (d : Disk m) (input : String) : m Outcome := do
  match ← loadDocument d input with
  | .error f => return .fail f
  | .ok doc => return validateDocument input doc

def summaryText (format : SummaryFormat) (summary : Json) : String :=
  match format with
  | .yaml => Yaml.write summary
  | .json => summary.pretty 0 ++ "\n"

def executeInspect (d : Disk m) (input : String) (format : SummaryFormat) : m Outcome := do
  match ← loadDocument d input with
  | .error f => return .fail f
  | .ok doc =>
    match summary doc with
    | .error e => return .fail [.text e.message]
    | .ok s => return { stdout := summaryText format s }

def executeInit (d : Disk m) (force : Bool) : m Outcome := do
  let found ← d.read configFileName
  if found != .missing && !force then
    return .fail [.text (configFileName ++ " already exists. Use --force to overwrite.")]
  else
    match ← d.write configFileName defaultConfig with
    | some reason => return .fail [.text ("failed to write " ++ configFileName), .system reason]
    | none => return { stderr := linesText ["Created " ++ configFileName] }

/-- Completion scripts are not written here. -/
def execute (d : Disk m) : Command → m Outcome
  | .generate config input target => executeGenerate d config input target
  | .validate input => executeValidate d input
  | .inspect input format => executeInspect d input format
  | .init force => executeInit d force
  | .completions _ => return {}

end

end TypedClients.CommandLine
