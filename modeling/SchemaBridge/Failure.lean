import SchemaBridge.FileTree
import SchemaBridge.Settings
import SchemaBridge.Emission
import SchemaBridge.SchemaError

/-!
Why a command fails, and the report of it: what failed, and below it the causes, each explained by
the next one. Several causes are numbered.
-/

namespace SchemaBridge

def SchemaError.causes : SchemaError → List String
  | reference error => [(SchemaError.reference error).message, error.message]
  | error => [error.message]

def ValidationError.causes : ValidationError → List String
  | cycle path target => [(ValidationError.cycle path target).message, cycleMessage target]
  | error => [error.message]

/-- Why a command fails. -/
inductive Failure where
  | settingsUnreadable (fault : AccessFault)
  | settingsMalformed
  | unreadable (path : String) (fault : AccessFault)
  | malformedSchema (path : String)
  | invalidSchema (path : String) (error : SchemaError)
  | malformedInstance (source : String)
  | mismatch (schema : String) (error : ValidationError)
  | inconvertible (schema : String) (format : TargetFormat) (error : EmissionError)
  | unwritable (path : String) (fault : AccessFault)
  | settingsExist
  | settingsUnwritable (fault : AccessFault)

namespace Failure

def headline : Failure → String
  | settingsUnreadable fault => "failed to read config " ++ Settings.path ++ ": " ++ fault.message
  | settingsMalformed =>
    "failed to parse config " ++ Settings.path ++ ": the text does not spell settings"
  | unreadable path _ => "failed to read " ++ path
  | malformedSchema path => "invalid schema " ++ path
  | invalidSchema path _ => "invalid schema " ++ path
  | malformedInstance source => source ++ " is not valid JSON"
  | mismatch schema _ => "instance does not match " ++ schema
  | inconvertible schema format _ => "cannot convert " ++ schema ++ " to " ++ format.name
  | unwritable path _ => "failed to write " ++ path
  | settingsExist => Settings.path ++ " already exists. Use --force to overwrite."
  | settingsUnwritable fault => fault.message

def causes : Failure → List String
  | unreadable _ fault => [fault.message]
  | malformedSchema _ => ["the text cannot be parsed"]
  | invalidSchema _ error => error.causes
  | malformedInstance _ => ["the text cannot be parsed"]
  | mismatch _ error => error.causes
  | inconvertible _ _ error => [error.message]
  | unwritable _ fault => [fault.message]
  | _ => []

/-- A cause after a lead-in. Its further lines start below the first. -/
def indented (leadIn cause : String) : String :=
  let blank := String.ofList (leadIn.toList.map fun _ => ' ')
  leadIn ++ ("\n" ++ blank).intercalate (cause.splitOn "\n")

def numbered (first : Nat) : List String → List String
  | [] => []
  | cause :: rest =>
    indented ("    " ++ toString first ++ ": ") cause :: numbered (first + 1) rest

/-- The lines of causes. A single one has no number. -/
def causeLines : List String → List String
  | [cause] => [indented "    " cause]
  | causes => numbered 0 causes

def report (e : Failure) : String :=
  let lines := match e.causes with
    | [] => []
    | causes => ["", "Caused by:"] ++ causeLines causes
  "Error: " ++ "\n".intercalate (e.headline :: lines) ++ "\n"

end Failure

end SchemaBridge
