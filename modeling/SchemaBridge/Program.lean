import SchemaBridge.Execution

/-!
The program: it reads the files that the arguments name, prints, and writes at most one file.
-/

namespace SchemaBridge

def AccessFault.ofSystem : IO.Error → AccessFault
  | .noFileOrDirectory _ _ _ => notFound
  | .inappropriateType _ code details => ofCode code details
  | .permissionDenied _ code details => ofCode code details
  | .resourceExhausted _ code details => ofCode code details
  | .invalidArgument _ code details => ofCode code details
  -- Bytes that spell no text are not a fault of the system.
  | .userError _ => notText
  | e => other (toString e) 0
where
  /-- The fault with a code of the system, whatever its sign. -/
  ofCode (code : UInt32) (details : String) : AccessFault :=
    match code.toInt32.toInt.natAbs with
    | 20 => notFolder
    | 21 => isFolder
    | 40 => tooManyLinks
    | code => other details code

def readText (path : String) : IO (Except AccessFault String) := do
  try
    return .ok (← IO.FS.readFile path)
  catch e => return .error (.ofSystem e)

def writeText (path text : String) : IO (Except AccessFault Unit) := do
  try
    return .ok (← IO.FS.writeFile path text)
  catch e => return .error (.ofSystem e)

/-- Prints an outcome, and gives its exit status. -/
def Outcome.emit (o : Outcome) : IO UInt32 := do
  IO.print o.stdout
  IO.eprint o.stderr
  return UInt32.ofNat o.exit

def Ending.carryOut : Ending → IO UInt32
  | .finished outcome => outcome.emit
  | .writing path text written failed => do
    match ← writeText path text with
    | .ok () => written.emit
    | .error fault => (failed fault).outcome.emit

/-- Runs the program with arguments, and gives its exit status. -/
def program (w : Wording) (arguments : List String) : IO UInt32 := do
  match Request.ofArguments arguments with
  | .error e => (e.outcome w arguments).emit
  | .ok request =>
    let texts ← request.paths.mapM fun path => return (path, ← readText path)
    let read path := (texts.lookup path).getD (.error .notFound)
    (request.ending w arguments read).carryOut

end SchemaBridge
