import SchemaBridge.Arguments
import SchemaBridge.Emission

/-!
The commands of the program and how they are spelled as arguments.
-/

namespace SchemaBridge

inductive InstanceSource where
  | given (text : String)
  | file (path : String)
  | settings
deriving DecidableEq

inductive SummaryFormat where
  | yaml
  | json
deriving DecidableEq

inductive Shell where
  | bash
  | elvish
  | fish
  | powershell
  | zsh
deriving DecidableEq

/-- A command: to validate an instance, to convert a schema, to summarise one, to write the default
settings, or to print a completion script. -/
inductive Command where
  | validate (schema : String) (source : InstanceSource)
  | convert (schema : String) (format : TargetFormat) (output : Option String)
  | inspect (schema : String) (format : SummaryFormat)
  | init (force : Bool)
  | completions (shell : Shell)
deriving DecidableEq

/-- What the program is asked for. -/
inductive Request where
  | command (c : Command)
  | help
  | version
deriving DecidableEq

namespace Arguments

def option? (a : Arguments) (name : String) : Option String :=
  a.options.lookup name

/-- The operand, which has to be given. -/
def required (a : Arguments) (name : String) : Except Interruption String :=
  match a.operand with
  | some text => .ok text
  | none => .error (.misuse (.missing name))

end Arguments

namespace TargetFormat

def named : List (String × TargetFormat) :=
  [avro, parquet].map fun format => (format.name, format)

end TargetFormat

namespace SummaryFormat

def named : List (String × SummaryFormat) :=
  [("yaml", yaml), ("json", json)]

end SummaryFormat

namespace Shell

def named : List (String × Shell) :=
  [("bash", bash), ("elvish", elvish), ("fish", fish), ("powershell", powershell), ("zsh", zsh)]

end Shell

namespace Command

def names : List String :=
  ["validate", "convert", "inspect", "init", "completions", "help"]

def choice {α : Type} (named : List (String × α)) (argument : String) (name : Option String) :
    Except Interruption α :=
  match name with
  | none => .error (.misuse (.missing argument))
  | some name =>
    match named.lookup name with
    | some a => .ok a
    | none => .error (.misuse (.invalidValue name))

def choiceForm {α : Type} (named : List (String × α)) : ValueForm :=
  .oneOf (named.map Prod.fst)

def readValidate (texts : List String) : Except Interruption Command := do
  let found ← CommandForm.read ⟨some .path,
    [⟨"instance", some 'i', some .text⟩, ⟨"instance-file", none, some .path⟩]⟩ texts
  let schema ← found.required "SCHEMA"
  match found.option? "instance", found.option? "instance-file" with
  | some _, some _ => throw (.misuse (.conflict "instance" "instance-file"))
  | some text, none => return .validate schema (.given text)
  | none, some path => return .validate schema (.file path)
  | none, none => return .validate schema .settings

def readConvert (texts : List String) : Except Interruption Command := do
  let found ← CommandForm.read ⟨some .path,
    [⟨"format", some 'f', some (choiceForm TargetFormat.named)⟩,
      ⟨"output", some 'o', some .path⟩]⟩ texts
  let schema ← found.required "SCHEMA"
  let format ← choice TargetFormat.named "--format" (found.option? "format")
  return .convert schema format (found.option? "output")

def readInspect (texts : List String) : Except Interruption Command := do
  let found ← CommandForm.read ⟨some .path,
    [⟨"format", none, some (choiceForm SummaryFormat.named)⟩]⟩ texts
  let schema ← found.required "SCHEMA"
  let format ← choice SummaryFormat.named "--format" (some ((found.option? "format").getD "yaml"))
  return .inspect schema format

def readInit (texts : List String) : Except Interruption Command := do
  let found ← CommandForm.read ⟨none, [⟨"force", none, none⟩]⟩ texts
  return .init (found.option? "force").isSome

def readCompletions (texts : List String) : Except Interruption Command := do
  let found ← CommandForm.read ⟨some (choiceForm Shell.named), []⟩ texts
  return .completions (← choice Shell.named "SHELL" found.operand)

def reader? : String → Option (List String → Except Interruption Command)
  | "validate" => some readValidate
  | "convert" => some readConvert
  | "inspect" => some readInspect
  | "init" => some readInit
  | "completions" => some readCompletions
  | _ => none

end Command

namespace Request

/-- What is asked for behind the word `help`: at most one name, of a command. -/
def ofHelp : List String → Except Interruption Request
  | [] => .ok .help
  | name :: rest =>
    if name ∉ Command.names then .error (.misuse (.unknownCommand name))
    else match rest with
    | [] => .ok .help
    | next :: _ => .error (.misuse (.unknownCommand next))

/-- What the arguments of the program ask for. The first one names the command. -/
def read : List String → Except Interruption Request
  | [] => .error (.misuse .missingCommand)
  | first :: rest =>
    match Argument.ofText first with
    | .operand "help" => ofHelp rest
    | .operand name =>
      match Command.reader? name with
      | some reader => .command <$> reader rest
      | none => .error (.misuse (.unknownCommand name))
    | .long "help" none => .error .help
    | .short 'h' _ => .error .help
    | .long "version" none => .ok .version
    | .short 'V' _ => .ok .version
    | _ => .error (.misuse (.unexpected first))

/-- What arguments ask for, or what is wrong with them. -/
def ofArguments (texts : List String) : Except UsageError Request :=
  match read texts with
  | .ok request => .ok request
  | .error .help => .ok .help
  | .error (.misuse e) => .error e

end Request

end SchemaBridge
