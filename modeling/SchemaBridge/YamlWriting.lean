import SchemaBridge.JsonText
import SchemaBridge.YamlValue

/-!
Writing values as YAML blocks. A text is written plainly if it would be read back as itself, between
single quotes if it would be read as something else, as a literal block if it has several lines, and
between double quotes where characters need escapes.
-/

namespace SchemaBridge

namespace YamlWriting

/-- Whether a character may stand unescaped between double quotes: any printable one of the basic
plane. -/
def isPrintable (c : Char) : Bool :=
  c == '\n' || (' ' ≤ c && c ≤ '~') || ('\xa0' ≤ c && c.toNat < 0xFFFE && c.toNat != 0xFEFF)

/-- The line breaks of YAML, before any of them is read as a line feed. -/
def isBreak (c : Char) : Bool :=
  c == '\r' || c == '\x85' || YamlText.isBreak c

/-- A blank, a line break, or the end of a text. -/
def endsWord : Option Char → Bool
  | none => true
  | some c => c == ' ' || c == '\t' || isBreak c

/-- Whether the first character of a text, given the one behind it, would start something else than
a plain scalar. -/
def isIndicatorFirst (c : Char) (next : Option Char) : Bool :=
  if c == '-' || c == '?' || c == ':' then endsWord next
  else YamlScan.indicators.contains c

/-- Whether a text holds a colon that ends a word, or a number sign that starts one. The characters
are those behind the given one. -/
def hasInnerIndicator (previous : Char) : List Char → Bool
  | [] => false
  | c :: rest =>
    (c == ':' && endsWord rest.head?) || (c == '#' && endsWord (some previous))
      || hasInnerIndicator c rest

/-- Whether a text would be read as something else than a plain scalar outside brackets. -/
def hasIndicator (cs : List Char) : Bool :=
  match cs with
  | [] => false
  | c :: rest =>
    isIndicatorFirst c rest.head? || hasInnerIndicator c rest
      || cs.take 3 == ['-', '-', '-'] || cs.take 3 == ['.', '.', '.']

/-- Whether two neighbours in a text satisfy two conditions in turn. -/
def hasPair (p q : Char → Bool) : List Char → Bool
  | c :: d :: rest => (p c && q d) || hasPair p q (d :: rest)
  | _ => false

/-- Whether a text starts or ends with a character of a kind. -/
def hasAtEdge (p : Char → Bool) (cs : List Char) : Bool :=
  cs.head?.any p || cs.getLast?.any p

def plainAllowed (cs : List Char) : Bool :=
  cs.all isPrintable && !cs.any isBreak && !hasAtEdge (· == ' ') cs && !hasIndicator cs

def singleQuotesAllowed (cs : List Char) : Bool :=
  cs.all isPrintable && !hasPair isBreak (· == ' ') cs && !hasPair (· == ' ') isBreak cs

/-- Whether a text can be written as a literal block. -/
def literalAllowed (cs : List Char) : Bool :=
  !cs.isEmpty && cs.all isPrintable && !hasPair (· == ' ') isBreak cs
    && cs.getLast? != some ' '

/-- The upper-case hexadecimal digits of a number, at least as many as the width. -/
def hexDigits (width n : Nat) : String :=
  let digits := (Nat.toDigits 16 n).map Char.toUpper
  String.ofList (List.replicate (width - digits.length) '0' ++ digits)

def escape (c : Char) : String :=
  match c with
  | '\x00' => "\\0"
  | '\x07' => "\\a"
  | '\x08' => "\\b"
  | '\t' => "\\t"
  | '\n' => "\\n"
  | '\x0b' => "\\v"
  | '\x0c' => "\\f"
  | '\r' => "\\r"
  | '\x1b' => "\\e"
  | '"' => "\\\""
  | '\\' => "\\\\"
  | '\x85' => "\\N"
  | '\u2028' => "\\L"
  | '\u2029' => "\\P"
  | c =>
    if isPrintable c then String.ofList [c]
    else if c.toNat < 0x100 then "\\x" ++ hexDigits 2 c.toNat
    else if c.toNat < 0x10000 then "\\u" ++ hexDigits 4 c.toNat
    else "\\U" ++ hexDigits 8 c.toNat

def doubleQuoted (cs : List Char) : String :=
  "\"" ++ String.join (cs.map escape) ++ "\""

def pad (indent : Nat) : String :=
  String.ofList (List.replicate indent ' ')

/-- The inside of single quotes: a quote is doubled, and the indentation follows a break. -/
def singleQuotedBody (indent : Nat) : List Char → String
  | [] => ""
  | c :: rest =>
    let continued := if isBreak c && !rest.head?.any isBreak then pad indent else ""
    (if c == '\x27' then "\x27\x27" else String.ofList [c]) ++ continued
      ++ singleQuotedBody indent rest

def singleQuoted (indent : Nat) (cs : List Char) : String :=
  "\x27" ++ singleQuotedBody indent cs ++ "\x27"

/-- The lines of a literal block. Each line that is not empty is indented. -/
def literalBody (indent : Nat) (atStart : Bool) : List Char → String
  | [] => ""
  | c :: rest =>
    if isBreak c then String.ofList [c] ++ literalBody indent true rest
    else (if atStart then pad indent else "") ++ String.ofList [c] ++ literalBody indent false rest

/-- The header of a literal block: the indentation is given if the first line does not show it, and
the sign says what becomes of the breaks at the end. -/
def literalHeader (cs : List Char) : String :=
  let shown := if cs.head?.any (fun c => c == ' ' || isBreak c) then "2" else ""
  let chomping := match cs.reverse with
    | [] => "-"
    | [c] => if isBreak c then "+" else "-"
    | c :: d :: _ => if !isBreak c then "-" else if isBreak d then "+" else ""
  "|" ++ shown ++ chomping

def literal (indent : Nat) (cs : List Char) : String :=
  literalHeader cs ++ "\n" ++ literalBody indent true cs

def quoted (indent : Nat) (cs : List Char) : String :=
  if singleQuotesAllowed cs then singleQuoted indent cs else doubleQuoted cs

/-- Whether a plain scalar would be read back as a text. -/
def readsAsText (text : String) : Bool :=
  match YamlScalar.plainValue? text with
  | some (.string _) => !YamlScalar.hasLeadingZero text
  | _ => false

/-- A text as a scalar, whose further lines have the given indentation. -/
def textScalar (indent : Nat) (text : String) : String :=
  let cs := text.toList
  if cs.contains '\n' then
    if literalAllowed cs then literal indent cs else doubleQuoted cs
  else if readsAsText text ∧ plainAllowed cs then text
  else quoted indent cs

/-- A text as a key, which stays on one line. -/
def key (text : String) : String :=
  let cs := text.toList
  if cs.any isBreak then doubleQuoted cs
  else if readsAsText text ∧ plainAllowed cs then text
  else quoted 0 cs

/-- A value without parts as a scalar. Of the containers only the empty ones have no parts. -/
def scalar (indent : Nat) : Json → String
  | .string text => textScalar indent text
  | .array _ => "[]"
  | .object _ => "\x7b\x7d"
  | v => v.compact

/-- Ends the line of a scalar, unless it is a block that ends with a break. -/
def ended (scalar : String) : String :=
  if scalar.toList.getLast?.any isBreak then scalar else scalar ++ "\n"

/-- Puts a dash before the first of some lines, in place of the end of its indentation. -/
def dashed (indent : Nat) : List String → List String
  | [] => []
  | line :: rest =>
    (pad indent ++ "- " ++ String.ofList (line.toList.drop (indent + 2))) :: rest

mutual
def entryLines (indent : Nat) : Members → List String
  | [] => []
  | (name, .object (m :: ms)) :: rest =>
    (pad indent ++ key name ++ ":\n")
      :: (entryLines (indent + 2) (m :: ms) ++ entryLines indent rest)
  | (name, .array (v :: vs)) :: rest =>
    (pad indent ++ key name ++ ":\n") :: (itemLines indent (v :: vs) ++ entryLines indent rest)
  | (name, v) :: rest =>
    (pad indent ++ key name ++ ": " ++ ended (scalar (indent + 2) v)) :: entryLines indent rest

def itemLines (indent : Nat) : List Json → List String
  | [] => []
  | .object (m :: ms) :: rest =>
    dashed indent (entryLines (indent + 2) (m :: ms)) ++ itemLines indent rest
  | .array (v :: vs) :: rest =>
    dashed indent (itemLines (indent + 2) (v :: vs)) ++ itemLines indent rest
  | v :: rest => (pad indent ++ "- " ++ ended (scalar (indent + 2) v)) :: itemLines indent rest
end

def lines : Json → List String
  | .object (m :: ms) => entryLines 0 (m :: ms)
  | .array (v :: vs) => itemLines 0 (v :: vs)
  | v => [ended (scalar 2 v)]

end YamlWriting

def Json.yaml (v : Json) : String :=
  String.join (YamlWriting.lines v)

end SchemaBridge
