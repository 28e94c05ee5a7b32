import SchemaBridge.AvroEmission
import SchemaBridge.Command
import SchemaBridge.Failure
import SchemaBridge.JsonText
import SchemaBridge.ParquetEmission
import SchemaBridge.SchemaReading
import SchemaBridge.SettingsReading
import SchemaBridge.Summary
import SchemaBridge.YamlWriting

/-!
Execution of a command. A command reads texts first and decides by them what to print or which one
file to write; so a command that fails has written nothing. The decision is a function of what can
be read, and running a command in a tree of files carries it out.
-/

namespace SchemaBridge

/-- The texts that paths lead to. -/
abbrev Sources := String → Except AccessFault String

/-- What a command does once all is decided. -/
inductive Effect where
  | print (text : String)
  | writeOutput (path text : String)
  | writeSettings
deriving DecidableEq

namespace Sources

/-- Whether something is at a path, readable or not. -/
def hasPath (read : Sources) (path : String) : Bool :=
  match read path with
  | .ok _ => true
  | .error fault => !fault.isAbsence

/-- The project settings. Without a file they are the defaults. -/
def settings (read : Sources) : Except Failure Settings :=
  match read Settings.path with
  | .error fault => if fault.isAbsence then .ok {} else .error (.settingsUnreadable fault)
  | .ok text =>
    match Settings.ofYaml? text with
    | some settings => .ok settings
    | none => .error .settingsMalformed

def text (read : Sources) (path : String) : Except Failure String :=
  (read path).mapError (.unreadable path)

/-- Whether the name at the end of a path has an extension that stands for YAML. A name that only
consists of the extension has none. -/
def isYaml (path : String) : Bool :=
  let name := path.toList.reverse.takeWhile (· ≠ '/')
  let extension := String.ofList (name.takeWhile (· ≠ '.')).reverse
  let stem := (name.dropWhile (· ≠ '.')).drop 1
  !stem.isEmpty && (extension == "yaml" || extension == "yml")

def document (read : Sources) (path : String) : Except Failure Json := do
  let text ← read.text path
  match if isYaml path then Json.ofYaml? text else Json.ofText? text with
  | some document => return document
  | none => throw (.malformedSchema path)

def schema (read : Sources) (path : String) : Except Failure Schema := do
  (Schema.read (← read.document path)).mapError (.invalidSchema path)

/-- The text of an instance, and what it is called in a report. -/
def instanceText (read : Sources) (settings : Settings) :
    InstanceSource → Except Failure (String × String)
  | .given text => .ok (text, "--instance")
  | .file path => do return (← read.text path, path)
  | .settings => .ok (settings.validation.defaultInstance, "default instance")

end Sources

def Schema.converted (s : Schema) (settings : Settings) :
    TargetFormat → Except EmissionError String
  | .avro => do return (← s.avroSchema settings.avro).text settings.avro.pretty
  | .parquet => do return (← s.parquetMessage settings.parquet.messageName).text

def Summary.text (s : Summary) : SummaryFormat → String
  | .yaml => s.toJson.yaml
  | .json => s.toJson.pretty 0 ++ "\n"

/-- The texts about the arguments of the program: what it prints when it is asked for help, what it
reports of arguments that it cannot accept, and its completion scripts. -/
structure Wording where
  help : List String → String
  misuse : List String → UsageError → String
  completion : Shell → String

namespace Command

def paths : Command → List String
  | validate schema (.file path) => [Settings.path, schema, path]
  | validate schema _ => [Settings.path, schema]
  | convert schema _ _ => [Settings.path, schema]
  | inspect schema _ => [schema]
  | init _ => [Settings.path]
  | completions _ => []

/-- What a command does, given the texts that it can read, or why it fails. -/
def effect (w : Wording) (read : Sources) : Command → Except Failure Effect
  | validate path source => do
    let settings ← read.settings
    let schema ← read.schema path
    let (text, name) ← read.instanceText settings source
    match Json.ofText? text with
    | none => throw (.malformedInstance name)
    | some value =>
      (schema.validate value).mapError (.mismatch path)
      return .print ("success: instance matches " ++ path ++ "\n")
  | convert path format output => do
    let settings ← read.settings
    let schema ← read.schema path
    let text ← (schema.converted settings format).mapError (.inconvertible path format)
    match output with
    | some target => return .writeOutput target (text ++ "\n")
    | none => return .print (text ++ "\n")
  | inspect path format => do
    return .print ((← read.schema path).summary.text format)
  | init force =>
    if read.hasPath Settings.path ∧ force = false then .error .settingsExist
    else .ok .writeSettings
  | completions shell => .ok (.print (w.completion shell))

end Command

/-- What a run of the program leaves: its exit status and its two outputs. -/
structure Outcome where
  exit : Nat := 0
  stdout : String := ""
  stderr : String := ""
deriving DecidableEq

def versionText : String :=
  "aptos 0.3.0\n"

def Failure.outcome (e : Failure) : Outcome :=
  { exit := 1, stderr := e.report }

/-- How a run ends: at once, or after a text is written to a path. -/
inductive Ending where
  | finished (outcome : Outcome)
  | writing (path text : String) (written : Outcome) (failed : AccessFault → Failure)

def Effect.ending : Effect → Ending
  | print text => .finished { stdout := text }
  | writeOutput path text =>
    .writing path text { stderr := "Wrote " ++ path ++ "\n" } (.unwritable path)
  | writeSettings =>
    .writing Settings.path Settings.defaultText
      { stderr := "Created " ++ Settings.path ++ "\n" } .settingsUnwritable

namespace Request

def paths : Request → List String
  | command c => c.paths
  | _ => []

/-- How a request ends, given the arguments that ask for it and the texts that it can read. -/
def ending (w : Wording) (arguments : List String) (read : Sources) : Request → Ending
  | command c =>
    match c.effect w read with
    | .ok effect => effect.ending
    | .error e => .finished e.outcome
  | help => .finished { stdout := w.help arguments }
  | version => .finished { stdout := versionText }

end Request

def UsageError.outcome (w : Wording) (arguments : List String) (e : UsageError) : Outcome :=
  { exit := 2, stderr := w.misuse arguments e }

namespace FileTree

def finish (f : FileTree) : Ending → Outcome × FileTree
  | .finished outcome => (outcome, f)
  | .writing path text written failed =>
    match f.write path text with
    | .ok g => (written, g)
    | .error fault => ((failed fault).outcome, f)

/-- Runs the program with arguments in a tree. -/
def run (f : FileTree) (w : Wording) (arguments : List String) : Outcome × FileTree :=
  match Request.ofArguments arguments with
  | .ok request => f.finish (request.ending w arguments f.read)
  | .error e => (e.outcome w arguments, f)

end FileTree

end SchemaBridge
