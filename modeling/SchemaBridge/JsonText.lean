import SchemaBridge.JsonToken
import SchemaBridge.ShortestDecimal

/-!
The text of a JSON value. Reading folds the tokens over the stack of the containers that are open,
at most 127 of them; a repeated key keeps its first place and takes its last value. Writing is
either compact or laid out with an indentation of two spaces.
-/

namespace SchemaBridge

namespace Json

/-- A container that is open while its parts are read. An array holds its elements last first, and
a member waits for the value of its key. -/
inductive OpenContainer where
  | array (elements : List Json)
  | object (members : Members)
  | member (members : Members) (key : String)

inductive Expected where
  | value
  | elementOrEnd
  | keyOrEnd
  | key
  | colon (key : String)
  | separator
  | nothing (result : Json)

/-- The progress of reading a value from its tokens. -/
structure ReadState where
  stack : List OpenContainer
  expected : Expected

namespace ReadState

/-- The most containers that may be open at a time. -/
def maxDepth : Nat := 127

/-- A finished value goes into the container on top, or is the whole value. -/
def deliver (value : Json) : List OpenContainer → Option ReadState
  | [] => some ⟨[], .nothing value⟩
  | .array elements :: rest => some ⟨.array (value :: elements) :: rest, .separator⟩
  | .member members key :: rest =>
    some ⟨.object (Entries.put key value members) :: rest, .separator⟩
  | .object _ :: _ => none

def enter (container : OpenContainer) (expected : Expected) (stack : List OpenContainer) :
    Option ReadState :=
  if stack.length < maxDepth then some ⟨container :: stack, expected⟩ else none

def beginValue (stack : List OpenContainer) : JsonToken → Option ReadState
  | .beginArray => enter (.array []) .elementOrEnd stack
  | .beginObject => enter (.object []) .keyOrEnd stack
  | .text s => deliver (.string s) stack
  | .scalar v => deliver v stack
  | _ => none

def beginMember : List OpenContainer → JsonToken → Option ReadState
  | .object members :: rest, .text key => some ⟨.object members :: rest, .colon key⟩
  | _, _ => none

/-- Takes a separator or the end of the container on top. -/
def continueContainer : List OpenContainer → JsonToken → Option ReadState
  | .array elements :: rest, .comma => some ⟨.array elements :: rest, .value⟩
  | .array elements :: rest, .endArray => deliver (.array elements.reverse) rest
  | .object members :: rest, .comma => some ⟨.object members :: rest, .key⟩
  | .object members :: rest, .endObject => deliver (.object members) rest
  | _, _ => none

def step (s : ReadState) (token : JsonToken) : Option ReadState :=
  match s.expected, token with
  | .value, t => beginValue s.stack t
  | .elementOrEnd, .endArray => continueContainer s.stack .endArray
  | .elementOrEnd, t => beginValue s.stack t
  | .keyOrEnd, .endObject => continueContainer s.stack .endObject
  | .keyOrEnd, t => beginMember s.stack t
  | .key, t => beginMember s.stack t
  | .colon key, .colon =>
    match s.stack with
    | .object members :: rest => some ⟨.member members key :: rest, .value⟩
    | _ => none
  | .colon _, _ => none
  | .separator, t => continueContainer s.stack t
  | .nothing _, _ => none

end ReadState

def ofTokens? (tokens : List JsonToken) : Option Json :=
  match tokens.foldlM ReadState.step ⟨[], .value⟩ with
  | some ⟨_, .nothing value⟩ => some value
  | _ => none

/-- The value that a text spells. -/
def ofText? (text : String) : Option Json := do
  ofTokens? (← JsonToken.ofText? text)

end Json

/-- Where decimal notation of a floating-point number begins and ends, by the exponent of its first
digit. -/
def Decimal.isPositional (d : Decimal) : Bool :=
  -5 ≤ d.leadExponent && d.leadExponent < 16

/-- The text of a decimal. Positional notation always shows a point; in scientific notation the
exponent is signed and a point stands only before further digits. -/
def Decimal.text (d : Decimal) : String :=
  let digits := d.digits
  let lead := d.leadExponent
  if d.isPositional then
    if 0 ≤ d.exponent then
      String.ofList (digits ++ List.replicate d.exponent.toNat '0') ++ ".0"
    else if 0 ≤ lead then
      let whole := (lead + 1).toNat
      String.ofList (digits.take whole) ++ "." ++ String.ofList (digits.drop whole)
    else
      "0." ++ String.ofList (List.replicate (-lead - 1).toNat '0' ++ digits)
  else
    let fraction := digits.drop 1
    String.ofList (digits.take 1)
      ++ (if fraction.isEmpty then "" else "." ++ String.ofList fraction)
      ++ (if lead < 0 then "e-" else "e+") ++ toString lead.natAbs

/-- The text of a number: an integer in decimal, any other number by its shortest decimal. -/
def JsonNumber.text : JsonNumber → String
  | integer i => toString i
  | real x => (if x.negative then "-" else "") ++ x.shortestDecimal.text

namespace Json

def hexDigit (n : Nat) : Char :=
  (Nat.toDigits 16 n).headD '0'

/-- A character inside a quoted text. Only quotes, backslashes and control characters are
escaped. -/
def escape (c : Char) : String :=
  match c with
  | '"' => "\\\""
  | '\\' => "\\\\"
  | '\x08' => "\\b"
  | '\x0c' => "\\f"
  | '\n' => "\\n"
  | '\r' => "\\r"
  | '\t' => "\\t"
  | c =>
    if c < ' ' then
      "\\u00" ++ String.ofList [hexDigit (c.toNat / 16), hexDigit (c.toNat % 16)]
    else String.ofList [c]

def quote (s : String) : String :=
  "\"" ++ String.join (s.toList.map escape) ++ "\""

mutual
def compact : Json → String
  | null => "null"
  | bool true => "true"
  | bool false => "false"
  | number n => n.text
  | string s => quote s
  | array elements => "[" ++ ",".intercalate (compactElements elements) ++ "]"
  | object members => "\x7b" ++ ",".intercalate (compactMembers members) ++ "\x7d"

def compactElements : List Json → List String
  | [] => []
  | v :: rest => compact v :: compactElements rest

def compactMembers : Members → List String
  | [] => []
  | (key, v) :: rest => (quote key ++ ":" ++ compact v) :: compactMembers rest
end

def newline (depth : Nat) : String :=
  "\n" ++ String.ofList (List.replicate (2 * depth) ' ')

/-- Lays out the parts of a container between brackets, each on a line of its own. -/
def block (opening closing : String) (depth : Nat) (parts : List String) : String :=
  if parts.isEmpty then opening ++ closing
  else opening ++ newline (depth + 1) ++ ("," ++ newline (depth + 1)).intercalate parts
    ++ newline depth ++ closing

mutual
/-- The text of a value laid out over several lines. -/
def pretty (depth : Nat) : Json → String
  | array elements => block "[" "]" depth (prettyElements (depth + 1) elements)
  | object members => block "\x7b" "\x7d" depth (prettyMembers (depth + 1) members)
  | v => compact v

def prettyElements (depth : Nat) : List Json → List String
  | [] => []
  | v :: rest => pretty depth v :: prettyElements depth rest

def prettyMembers (depth : Nat) : Members → List String
  | [] => []
  | (key, v) :: rest => (quote key ++ ": " ++ pretty depth v) :: prettyMembers depth rest
end

end Json

end SchemaBridge
