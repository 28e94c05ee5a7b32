/-!
Arguments of a command: one operand, and options that start with dashes. The value of an option
follows it as the next argument, after an equals sign, or behind a single letter. After a double
dash all arguments are operands. An option is given at most once, and to ask for help ends the
reading.
-/

namespace SchemaBridge

inductive ValueForm where
  | text
  | path
  | oneOf (names : List String)

def ValueForm.accepts : ValueForm → String → Bool
  | text, _ => true
  | path, value => value ≠ ""
  | oneOf names, value => names.contains value

/-- An option: its names, and the form of its value unless it is a switch. -/
structure OptionForm where
  long : String
  short : Option Char := none
  value : Option ValueForm := none

structure CommandForm where
  operand : Option ValueForm := none
  options : List OptionForm := []

/-- What is wrong with the arguments of the program. -/
inductive UsageError where
  | missingCommand
  | unknownCommand (name : String)
  | unexpected (argument : String)
  | missingValue (option : String)
  | invalidValue (value : String)
  | repeated (option : String)
  | missing (argument : String)
  | conflict (first second : String)
deriving DecidableEq

/-- Why the reading of arguments ends before all of them are read. -/
inductive Interruption where
  | help
  | misuse (error : UsageError)
deriving DecidableEq

/-- The shape of an argument. -/
inductive Argument where
  | operand (text : String)
  | long (name : String) (value : Option String)
  | short (letter : Char) (rest : List Char)
  | divider

/-- The shape of an argument by its dashes. A single dash is an operand. -/
def Argument.ofText (text : String) : Argument :=
  match text.toList with
  | ['-', '-'] => divider
  | '-' :: '-' :: body =>
    let value := match body.dropWhile (· ≠ '=') with
      | [] => none
      | _ :: value => some (String.ofList value)
    long (String.ofList (body.takeWhile (· ≠ '='))) value
  | '-' :: letter :: rest => short letter rest
  | _ => operand text

/-- What was found among the arguments: the operand, and the options with their values. -/
structure Arguments where
  operand : Option String := none
  options : List (String × String) := []

/-- The reading of arguments: what was found, the option whose value comes next, and whether a
divider was passed. -/
structure ArgumentScan where
  found : Arguments := {}
  awaiting : Option OptionForm := none
  divided : Bool := false

namespace ArgumentScan

def takeOperand (form : CommandForm) (s : ArgumentScan) (text : String) :
    Except Interruption ArgumentScan :=
  match form.operand, s.found.operand with
  | some valueForm, none =>
    if valueForm.accepts text then .ok { s with found := { s.found with operand := some text } }
    else .error (.misuse (.invalidValue text))
  | _, _ => .error (.misuse (.unexpected text))

/-- Reads an option with its value. A switch has the empty text as its value. -/
def takeOption (s : ArgumentScan) (option : OptionForm) (value : String) :
    Except Interruption ArgumentScan :=
  if (s.found.options.lookup option.long).isSome then .error (.misuse (.repeated option.long))
  else if option.value.all fun form => form.accepts value then
    .ok { s with
      found := { s.found with options := (option.long, value) :: s.found.options }
      awaiting := none }
  else .error (.misuse (.invalidValue value))

/-- Reads an option, whose value may be part of the same argument. -/
def startOption (s : ArgumentScan) (text : String) (option? : Option OptionForm)
    (value : Option String) : Except Interruption ArgumentScan :=
  match option? with
  | none => .error (.misuse (.unexpected text))
  | some option =>
    match option.value, value with
    | none, none => s.takeOption option ""
    | none, some _ => .error (.misuse (.unexpected text))
    | some _, some value => s.takeOption option value
    | some _, none => .ok { s with awaiting := some option }

/-- The value behind a letter. One equals sign between them is skipped. -/
def shortValue : List Char → Option String
  | [] => none
  | '=' :: value => some (String.ofList value)
  | value => some (String.ofList value)

def step (form : CommandForm) (s : ArgumentScan) (text : String) :
    Except Interruption ArgumentScan :=
  match s.awaiting, Argument.ofText text with
  | some option, .operand value => s.takeOption option value
  | some option, _ => .error (.misuse (.missingValue option.long))
  | none, argument =>
    if s.divided then s.takeOperand form text
    else match argument with
    | .operand text => s.takeOperand form text
    | .divider => .ok { s with divided := true }
    | .long "help" none => .error .help
    | .short 'h' _ => .error .help
    | .long name value => s.startOption text (form.options.find? (·.long = name)) value
    | .short letter rest =>
      s.startOption text (form.options.find? (·.short = some letter)) (shortValue rest)

end ArgumentScan

def CommandForm.read (form : CommandForm) (texts : List String) :
    Except Interruption Arguments := do
  let s ← texts.foldlM (ArgumentScan.step form) {}
  match s.awaiting with
  | some option => throw (.misuse (.missingValue option.long))
  | none => return s.found

end SchemaBridge
