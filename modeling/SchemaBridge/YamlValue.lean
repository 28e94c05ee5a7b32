import SchemaBridge.YamlNode

/-!
The values of YAML nodes. A plain scalar is read as the null value, a truth value or a number if it
spells one, and as a text otherwise; a tag of the core schema asks for one of these. An alias is
read as the node that it stands for, within bounds on the depth and on the number of such steps.
-/

namespace SchemaBridge

namespace YamlScalar

def isNull (text : String) : Bool :=
  text == "null" || text == "Null" || text == "NULL" || text == "~"

def toBool? (text : String) : Option Bool :=
  if text == "true" || text == "True" || text == "TRUE" then some true
  else if text == "false" || text == "False" || text == "FALSE" then some false
  else none

/-- Whether a text consists of digits with a needless zero in front, apart from a sign. Such a text
is no number. -/
def hasLeadingZero (text : String) : Bool :=
  let digits := match text.toList with
    | '-' :: rest => rest
    | '+' :: rest => rest
    | cs => cs
  match digits with
  | '0' :: d :: rest => (d :: rest).all Char.isDigit
  | _ => false

def digitsIn? (base : Nat) (digits : List Char) : Option Nat :=
  if digits.isEmpty then none
  else digits.foldlM (fun n c => do
    let d ← JsonToken.hexDigit? c
    if d < base then some (base * n + d) else none) 0

/-- The magnitude that a text without a sign spells: in base 16, 8 or 2 behind a prefix, or else in
base 10. -/
def magnitude? (isDecimal : Bool) (cs : List Char) : Option Nat :=
  let based := match cs with
    | '0' :: 'x' :: digits => digitsIn? 16 digits
    | '0' :: 'o' :: digits => digitsIn? 8 digits
    | '0' :: 'b' :: digits => digitsIn? 2 digits
    | _ => none
  if based.isSome then based else if isDecimal then digitsIn? 10 cs else none

def toInt? (text : String) : Option Int :=
  let isDecimal := !hasLeadingZero text
  match text.toList with
  | '-' :: cs => (magnitude? isDecimal cs).map fun n => -(n : Int)
  | '+' :: cs => (magnitude? isDecimal cs).map Int.ofNat
  | cs => (magnitude? isDecimal cs).map Int.ofNat

/-- The decimal that a text without a sign spells. A point needs digits on one of its sides. -/
def numeral? (negative : Bool) (cs : List Char) : Option Numeral := do
  let (whole, rest) := Numeral.spanDigits cs
  let (fraction, rest) := match rest with
    | '.' :: rest =>
      let (digits, rest) := Numeral.spanDigits rest
      (some digits, rest)
    | _ => (none, rest)
  if whole.isEmpty ∧ (fraction.getD []).isEmpty then none
  match rest with
  | [] => some ⟨negative, whole, fraction, none⟩
  | 'e' :: rest | 'E' :: rest => do
    let (exponent, rest) ← Numeral.scanExponent? rest
    if rest.isEmpty then some ⟨negative, whole, fraction, some exponent⟩ else none
  | _ => none

/-- The value of a floating-point spelling. Infinities and what is no number have no counterpart and
become null. -/
def toReal? (text : String) : Option Json :=
  let special := [".inf", ".Inf", ".INF"].flatMap (fun s => [s, "+" ++ s, "-" ++ s])
    ++ [".nan", ".NaN", ".NAN"]
  if text ∈ special then some .null
  else
    let numeral := match text.toList with
      | '-' :: cs => numeral? true cs
      | '+' :: cs => numeral? false cs
      | cs => numeral? false cs
    (numeral.bind Numeral.toReal?).map fun x => .number (.real x)

/-- The largest magnitude of an integer that is read as one, though it may not fit a JSON number. -/
def fitsWide (i : Int) : Bool :=
  -2 ^ 127 ≤ i && i < 2 ^ 128

/-- Whether an integer fits a JSON number. -/
def fitsNarrow (i : Int) : Bool :=
  -2 ^ 63 ≤ i && i < 2 ^ 64

/-- The number that an integer spelling stands for. One that is too large for a JSON number is
refused, unless it is so large that it is no integer at all. -/
inductive IntegerReading where
  | number (value : Int)
  | refused
  | notAnInteger

def readInteger (text : String) : IntegerReading :=
  match toInt? text with
  | none => .notAnInteger
  | some i =>
    if fitsNarrow i then .number i else if fitsWide i then .refused else .notAnInteger

def plainValue? (text : String) : Option Json :=
  if text.isEmpty ∨ isNull text then some .null
  else match toBool? text with
    | some b => some (.bool b)
    | none =>
      match readInteger text with
      | .number i => some (.number (.integer i))
      | .refused => none
      | .notAnInteger =>
        if hasLeadingZero text then some (.string text)
        else some ((toReal? text).getD (.string text))

/-- The name of a type of the core schema as a whole tag. -/
def coreTag (name : String) : String :=
  "tag:yaml.org,2002:" ++ name

/-- Whether a tag is local to a document. Such a tag has no counterpart in JSON. -/
def isLocalTag (tag : Option String) : Bool :=
  tag.any fun t => t.toList.head? == some '!'

def value? (tag : Option String) (style : ScalarStyle) (text : String) : Option Json :=
  if isLocalTag tag then none
  else match tag with
    | none => if style = .plain then plainValue? text else some (.string text)
    | some tag =>
      if tag = coreTag "bool" then (toBool? text).map .bool
      else if tag = coreTag "int" then
        match readInteger text with
        | .number i => some (.number (.integer i))
        | _ => none
      else if tag = coreTag "float" then toReal? text
      else if tag = coreTag "null" then if isNull text then some .null else none
      else some (.string text)

end YamlScalar

namespace YamlNode

mutual
/-- The number of events of a node: one for a scalar or an alias, and one for each end of a
collection. -/
def events : YamlNode → Nat
  | sequence _ items => eventsOfItems items + 2
  | mapping _ entries => eventsOfEntries entries + 2
  | _ => 1

def eventsOfItems : List YamlNode → Nat
  | [] => 0
  | item :: rest => events item + eventsOfItems rest

def eventsOfEntries : List (YamlNode × YamlNode) → Nat
  | [] => 0
  | (key, value) :: rest => events key + events value + eventsOfEntries rest
end

end YamlNode

namespace YamlDocument

/-- A step of reading values: it counts down the aliases that may still be followed, or fails. -/
abbrev Reader := StateT Nat Option

/-- The node that an alias stands for, or the node itself. -/
def follow (d : YamlDocument) : YamlNode → Reader YamlNode
  | .alias number => do
    match ← get with
    | 0 => failure
    | left + 1 =>
      set left
      d.target? number
  | node => return node

/-- The text of a scalar, whatever value it spells. -/
def text (d : YamlDocument) (node : YamlNode) : Reader String := do
  match ← d.follow node with
  | .scalar _ _ content => return content
  | _ => failure

/-- The values of items, in order. -/
def items (read : YamlNode → Reader Json) : List YamlNode → Reader (List Json)
  | [] => return []
  | node :: rest => return (← read node) :: (← items read rest)

/-- The members that entries give an object, after those before. -/
def entries (read : YamlNode → Reader Json) (d : YamlDocument) :
    List (YamlNode × YamlNode) → Members → Reader Members
  | [], members => return members
  | (key, value) :: rest, members => do
    let key ← d.text key
    let value ← read value
    entries read d rest (Entries.put key value members)

/-- The value of a node. The parts of a collection need a reader of their own. -/
def valueWith (read? : Option (YamlNode → Reader Json)) (d : YamlDocument) (node : YamlNode) :
    Reader Json := do
  match ← d.follow node, read? with
  | .scalar tag style content, _ => YamlScalar.value? tag style content
  | .sequence tag parts, some read =>
    if YamlScalar.isLocalTag tag then failure
    else return .array (← items read parts)
  | .mapping tag parts, some read =>
    if YamlScalar.isLocalTag tag then failure
    else return .object (← entries read d parts [])
  | _, _ => failure

/-- The value of a node. The depth counts the collections that may still be opened. -/
def value (d : YamlDocument) : Nat → YamlNode → Reader Json
  | 0 => d.valueWith none
  | depth + 1 => d.valueWith (some (d.value depth))

/-- The most collections that may be open at a time. -/
def maxDepth : Nat := 128

/-- The most aliases that may be followed in a document with a given node. -/
def maxAliases (root : YamlNode) : Nat :=
  100 * root.events

/-- The value of a document. Without a node it is null. -/
def toJson? (d : YamlDocument) : Option Json :=
  match d.root with
  | none => some .null
  | some root => (·.1) <$> (d.value maxDepth root).run (maxAliases root)

end YamlDocument

/-- The value that a YAML text spells. -/
def Json.ofYaml? (text : String) : Option Json := do
  (← YamlDocument.ofText? text).toJson?

end SchemaBridge
