import SchemaBridge.YamlScalar

/-!
Tokens of a YAML text. Indentation opens and closes blocks: a token of its own marks where a block
of entries or keys begins, and another one where it ends. Whether a scalar or a bracketed collection
is a key shows only at the colon behind it, so the places where a key may have begun are remembered,
one for each level of brackets, as long as the key can still end on its line.
-/

namespace SchemaBridge

/-- A token of a YAML text. -/
inductive YamlToken where
  | versionDirective (major minor : Nat)
  | tagDirective (handle replacement : String)
  | documentStart
  | documentEnd
  | blockSequenceStart
  | blockMappingStart
  | blockEnd
  | flowSequenceStart
  | flowSequenceEnd
  | flowMappingStart
  | flowMappingEnd
  | blockEntry
  | flowEntry
  | key
  | value
  | alias (anchor : String)
  | anchor (anchor : String)
  | tag (handle suffix : String)
  | scalar (style : ScalarStyle) (content : String)
deriving DecidableEq

/-- A place where a key may have begun: how many tokens were before it, where it stands, and whether
a key is the only thing that may stand there. -/
structure PossibleKey where
  position : Nat
  line : Nat
  column : Nat
  required : Bool

/-- The progress of cutting a text into tokens: the rest of the text, the tokens so far with the
last first and their number, the indentation of the current block and of those around it, the
possible key at each level of brackets from the innermost on, and whether a key may begin. -/
structure YamlScan where
  rest : List YamlChar
  tokens : List YamlToken := []
  count : Nat := 0
  indent : Int := -1
  outerIndents : List Int := []
  possibleKeys : List (Option PossibleKey) := [none]
  keyAllowed : Bool := true

namespace YamlScan

open YamlText

def inFlow (s : YamlScan) : Bool :=
  1 < s.possibleKeys.length

def emit (s : YamlScan) (token : YamlToken) : YamlScan :=
  { s with tokens := token :: s.tokens, count := s.count + 1 }

/-- Inserts a token before all but the first `position` tokens. -/
def insertAt (s : YamlScan) (position : Nat) (token : YamlToken) : YamlScan :=
  { s with
    tokens := s.tokens.insertIdx (s.count - position) token
    count := s.count + 1 }

/-- Skips one character and adds a token for it. -/
def emitIndicator (s : YamlScan) (token : YamlToken) : YamlScan :=
  { s.emit token with rest := s.rest.drop 1 }

/-- Skips blanks, comments and line breaks. A tab may not stand where a key may begin outside
brackets. A new line outside brackets may begin with a key. -/
def skipSpace (inFlow keyAllowed : Bool) (cs : List YamlChar) : Bool × List YamlChar :=
  let cs' := (skipByteOrderMark cs).dropWhile fun c =>
    c.char == ' ' || (c.char == '\t' && (inFlow || !keyAllowed))
  let cs' := if front cs' = '#' then cs'.dropWhile (! ·.endsLine) else cs'
  match cs' with
  | [] => (keyAllowed, [])
  | c :: rest =>
    if c.isBreak ∧ rest.length < cs.length then skipSpace inFlow (keyAllowed || !inFlow) rest
    else (keyAllowed, c :: rest)
termination_by cs.length

/-- The most columns between the start of a key and its colon. -/
def maxKeyColumns : Nat := 1024

/-- A possible key as seen from a later place: none once it cannot end any more, which a required
key may not come to. -/
def expire (line column : Nat) : Option PossibleKey → Option (Option PossibleKey)
  | none => some none
  | some key =>
    if key.line < line ∨ key.column + maxKeyColumns < column then
      if key.required then none else some none
    else some (some key)

/-- Gives up the possible key at the current level, unless it is required. -/
def dropKey (s : YamlScan) : Option YamlScan :=
  match s.possibleKeys with
  | some key :: outer =>
    if key.required then none else some { s with possibleKeys := none :: outer }
  | _ => some s

/-- Remembers that a key may begin here. -/
def saveKey (s : YamlScan) : Option YamlScan :=
  if s.keyAllowed then do
    let s ← s.dropKey
    let key : PossibleKey :=
      { position := s.count
        line := line s.rest
        column := column s.rest
        required := !s.inFlow && s.indent == column s.rest }
    return { s with possibleKeys := some key :: s.possibleKeys.drop 1 }
  else some s

/-- Opens a block at a column right of the current one, with its token at a position. -/
def openBlock (s : YamlScan) (column position : Nat) (token : YamlToken) : YamlScan :=
  if ¬s.inFlow ∧ s.indent < column then
    { s.insertAt position token with
      indent := column
      outerIndents := s.indent :: s.outerIndents }
  else s

/-- Closes the blocks right of a column. -/
def closeBlocks (column : Int) (s : YamlScan) : List Int → YamlScan
  | [] => s
  | outer :: rest =>
    if ¬s.inFlow ∧ column < s.indent then
      closeBlocks column { s.emit .blockEnd with indent := outer, outerIndents := rest } rest
    else s

def unindent (s : YamlScan) (column : Int) : YamlScan :=
  s.closeBlocks column s.outerIndents

/-- Goes on to the next token: skips what is between, gives up keys that cannot end any more, and
closes the blocks that the next token is left of. -/
def advance (s : YamlScan) : Option YamlScan := do
  let (keyAllowed, rest) := skipSpace s.inFlow s.keyAllowed s.rest
  let possibleKeys ← s.possibleKeys.mapM (expire (line rest) (column rest))
  return { s with rest, keyAllowed, possibleKeys }.unindent (column rest)

/-- Leaves all blocks, before a directive, a document marker or the end. -/
def leaveBlocks (s : YamlScan) : Option YamlScan := do
  let s ← (s.unindent (-1)).dropKey
  return { s with keyAllowed := false }

/-- Reads digits of a version number, at most nine. -/
def versionNumber? (cs : List YamlChar) : Option (Nat × List YamlChar) :=
  let digits := (cs.takeWhile (·.char.isDigit)).map YamlChar.char
  if digits.isEmpty ∨ 9 < digits.length then none
  else some (Nat.ofDigitChars 10 digits 0, cs.drop digits.length)

def name (cs : List YamlChar) : List Char × List YamlChar :=
  ((cs.takeWhile YamlChar.isNameChar).map YamlChar.char, cs.dropWhile YamlChar.isNameChar)

/-- Reads the handle of a tag: an exclamation mark alone, or a name between two. In a directive
nothing else may follow a mark alone; in a tag the name belongs to its suffix. -/
def tagHandle? (inDirective : Bool) (cs : List YamlChar) : Option (List Char × List YamlChar) :=
  if front cs ≠ '!' then none
  else
    let (letters, rest) := name (cs.drop 1)
    if front rest = '!' then some ('!' :: letters ++ ['!'], rest.drop 1)
    else if inDirective ∧ ¬letters.isEmpty then none
    else some ('!' :: letters, rest)

/-- Whether a character may stand in the suffix of a tag. Inside angle brackets commas and square
brackets may, too. -/
def isTagChar (verbatim : Bool) (c : YamlChar) : Bool :=
  c.isNameChar || c.char ∈ [';', '/', '?', ':', '@', '&', '=', '+', '$', '.', '!', '~', '*', '\x27',
      '(', ')', '%']
    || (verbatim && c.char ∈ [',', '[', ']'])

/-- The number of bytes of a character whose first byte is given. -/
def byteWidth (byte : Nat) : Nat :=
  if byte < 0x80 then 1
  else if 0xC0 ≤ byte ∧ byte < 0xE0 then 2
  else if 0xE0 ≤ byte ∧ byte < 0xF0 then 3
  else if 0xF0 ≤ byte ∧ byte < 0xF8 then 4
  else 0

/-- Reads one byte given as a percent sign and two hexadecimal digits. -/
def escapedByte? : List YamlChar → Option (Nat × List YamlChar)
  | p :: a :: b :: rest =>
    if p.char = '%' then do
      return (16 * (← JsonToken.hexDigit? a.char) + (← JsonToken.hexDigit? b.char), rest)
    else none
  | _ => none

def escapedBytes? : Nat → List YamlChar → Option (List Nat × List YamlChar)
  | 0, cs => some ([], cs)
  | count + 1, cs => do
    let (byte, rest) ← escapedByte? cs
    if byte / 64 ≠ 2 then none
    let (bytes, rest) ← escapedBytes? count rest
    return (byte :: bytes, rest)

/-- Reads a character given by its bytes. -/
def escapedChar? (cs : List YamlChar) : Option (Char × List YamlChar) := do
  let (first, rest) ← escapedByte? cs
  let width := byteWidth first
  if width = 0 then none
  let (others, rest) ← escapedBytes? (width - 1) rest
  let lead := if width = 1 then first else first % 2 ^ (7 - width)
  let point := others.foldl (fun n byte => 64 * n + byte % 64) lead
  return (Char.ofNat point, rest)

def tagSuffix? (verbatim : Bool) (cs : List YamlChar) : Option (List Char × List YamlChar) :=
  match cs with
  | [] => some ([], [])
  | c :: rest =>
    if ¬isTagChar verbatim c then some ([], c :: rest)
    else if c.char = '%' then
      match escapedChar? (c :: rest) with
      | some (e, next) =>
        if next.length ≤ rest.length then
          (tagSuffix? verbatim next).map fun (cs, rest) => (e :: cs, rest)
        else none
      | none => none
    else (tagSuffix? verbatim rest).map fun (cs, rest) => (c.char :: cs, rest)
termination_by cs.length
decreasing_by all_goals simp; try omega

def nonEmptySuffix? (verbatim : Bool) (cs : List YamlChar) :
    Option (List Char × List YamlChar) := do
  let (suffix, rest) ← tagSuffix? verbatim cs
  if suffix.isEmpty then none else some (suffix, rest)

def tag? (inFlow : Bool) (cs : List YamlChar) : Option (YamlToken × List YamlChar) := do
  let (handle, suffix, rest) ←
    if front (cs.drop 1) = '<' then do
      let (suffix, rest) ← nonEmptySuffix? true (cs.drop 2)
      if front rest ≠ '>' then none
      some (([] : List Char), suffix, rest.drop 1)
    else do
      let (handle, rest) ← tagHandle? false cs
      if 1 < handle.length ∧ handle.getLast? = some '!' then
        let (suffix, rest) ← nonEmptySuffix? false rest
        some (handle, suffix, rest)
      else
        let (more, rest) ← tagSuffix? false rest
        match handle.drop 1 ++ more with
        | [] => some ([], ['!'], rest)
        | suffix => some (['!'], suffix, rest)
  if endsWord rest ∨ (inFlow ∧ front rest = ',') then
    return (.tag (String.ofList handle) (String.ofList suffix), rest)
  else none

def directiveValue? (name : String) (cs : List YamlChar) : Option (YamlToken × List YamlChar) := do
  let cs := cs.dropWhile YamlChar.isBlank
  match name with
  | "YAML" => do
    let (major, rest) ← versionNumber? cs
    if front rest ≠ '.' then none
    let (minor, rest) ← versionNumber? (rest.drop 1)
    return (.versionDirective major minor, rest)
  | "TAG" => do
    let (handle, rest) ← tagHandle? true cs
    if !(rest.head?.any YamlChar.isBlank) then none
    let (replacement, rest) ← nonEmptySuffix? true (rest.dropWhile YamlChar.isBlank)
    if !endsWord rest then none
    return (.tagDirective (String.ofList handle) (String.ofList replacement), rest)
  | _ => none

def directive? (cs : List YamlChar) : Option (YamlToken × List YamlChar) := do
  let (letters, rest) := name cs
  if letters.isEmpty ∨ !endsWord rest then none
  let (token, rest) ← directiveValue? (String.ofList letters) rest
  return (token, ← YamlScalar.endOfLine? rest)

/-- Reads the name of an anchor or alias behind its indicator. -/
def anchorName? (cs : List YamlChar) : Option (String × List YamlChar) :=
  let (letters, rest) := name cs
  if letters.isEmpty then none
  else if endsWord rest ∨ front rest ∈ ['?', ':', ',', ']', '}', '%', '@', '\x60'] then
    some (String.ofList letters, rest)
  else none

/-- Takes a bracket that opens a collection. The collection may be a key. -/
def openFlow (s : YamlScan) (token : YamlToken) : Option YamlScan := do
  let s ← s.saveKey
  return { s.emitIndicator token with possibleKeys := none :: s.possibleKeys, keyAllowed := true }

def closeFlow (s : YamlScan) (token : YamlToken) : Option YamlScan := do
  let s ← s.dropKey
  let possibleKeys := if s.inFlow then s.possibleKeys.drop 1 else s.possibleKeys
  return { s.emitIndicator token with possibleKeys, keyAllowed := false }

def flowEntry (s : YamlScan) : Option YamlScan := do
  let s ← s.dropKey
  return { s.emitIndicator .flowEntry with keyAllowed := true }

def blockEntry (s : YamlScan) : Option YamlScan := do
  if !s.inFlow && !s.keyAllowed then none
  let s ← (s.openBlock (column s.rest) s.count .blockSequenceStart).dropKey
  return { s.emitIndicator .blockEntry with keyAllowed := true }

def explicitKey (s : YamlScan) : Option YamlScan := do
  if !s.inFlow && !s.keyAllowed then none
  let s ← (s.openBlock (column s.rest) s.count .blockMappingStart).dropKey
  return { s.emitIndicator .key with keyAllowed := !s.inFlow }

/-- Takes the colon before a value. What stands before it on the line is its key, unless a question
mark announced the key. -/
def valueIndicator (s : YamlScan) : Option YamlScan :=
  match s.possibleKeys with
  | some key :: outer =>
    let s := (s.insertAt key.position .key).openBlock key.column key.position .blockMappingStart
    some { s.emitIndicator .value with possibleKeys := none :: outer, keyAllowed := false }
  | _ =>
    if s.inFlow then some { s.emitIndicator .value with keyAllowed := false }
    else if s.keyAllowed then
      let s := s.openBlock (column s.rest) s.count .blockMappingStart
      some { s.emitIndicator .value with keyAllowed := true }
    else none

/-- Takes an anchor, an alias, a tag or a scalar that may be a key, or stand before one. -/
def content (s : YamlScan) (read : List YamlChar → Option (YamlToken × List YamlChar)) :
    Option YamlScan := do
  let s ← s.saveKey
  let (token, rest) ← read s.rest
  return { s.emit token with rest, keyAllowed := false }

/-- Takes a plain scalar. Behind a line break a key may begin. -/
def plainScalar (s : YamlScan) : Option YamlScan := do
  let s ← s.saveKey
  let plain ← YamlScalar.plain? s.inFlow (s.indent + 1) s.rest
  return { s.emit (.scalar .plain (String.ofList plain.content)) with
    rest := plain.rest
    keyAllowed := plain.endsLine }

def blockScalar (s : YamlScan) (style : ScalarStyle) : Option YamlScan := do
  let s ← s.dropKey
  let (content, rest) ←
    YamlScalar.block? (style == .literal) s.indent (s.rest.drop 1)
  return { s.emit (.scalar style (String.ofList content)) with rest, keyAllowed := true }

def quotedScalar (s : YamlScan) (read : List YamlChar → Option (List Char × List YamlChar)) :
    Option YamlScan :=
  s.content fun cs => (read (cs.drop 1)).map fun (text, rest) =>
    (.scalar .quoted (String.ofList text), rest)

def documentMarker (s : YamlScan) (token : YamlToken) : Option YamlScan := do
  let s ← s.leaveBlocks
  return { s.emit token with rest := s.rest.drop 3 }

def indicators : List Char :=
  ['-', '?', ':', ',', '[', ']', '{', '}', '#', '&', '*', '!', '|', '>', '\x27', '"', '%', '@',
    '\x60']

/-- Whether a plain scalar starts here. A dash starts one if it is not alone, and so do a question
mark and a colon outside brackets. -/
def startsPlain (inFlow : Bool) : List YamlChar → Bool
  | [] => false
  | c :: rest =>
    if c.char = '-' then !(rest.head?.any YamlChar.isBlank)
    else if c.char = '?' ∨ c.char = ':' then !inFlow && !endsWord rest
    else !c.endsWord && !indicators.contains c.char

/-- Takes the token at the front of the rest of the text. -/
def next (s : YamlScan) : Option YamlScan :=
  let following := s.rest.drop 1
  let separate := s.inFlow || endsWord following
  if column s.rest = 0 ∧ front s.rest = '%' then do
    let s ← s.leaveBlocks
    let (token, rest) ← directive? (s.rest.drop 1)
    return { s.emit token with rest }
  else if startsMarker '-' s.rest then s.documentMarker .documentStart
  else if startsMarker '.' s.rest then s.documentMarker .documentEnd
  else match front s.rest with
    | '[' => s.openFlow .flowSequenceStart
    | '{' => s.openFlow .flowMappingStart
    | ']' => s.closeFlow .flowSequenceEnd
    | '}' => s.closeFlow .flowMappingEnd
    | ',' => s.flowEntry
    | '*' => s.content fun cs => (anchorName? (cs.drop 1)).map fun (name, rest) =>
        (.alias name, rest)
    | '&' => s.content fun cs => (anchorName? (cs.drop 1)).map fun (name, rest) =>
        (.anchor name, rest)
    | '!' => s.content (tag? s.inFlow)
    | '\x27' => s.quotedScalar YamlScalar.singleQuoted?
    | '"' => s.quotedScalar YamlScalar.doubleQuoted?
    | c =>
      if c = '-' ∧ endsWord following then s.blockEntry
      else if c = '?' ∧ separate then s.explicitKey
      else if c = ':' ∧ separate then s.valueIndicator
      else if c = '|' ∧ ¬s.inFlow then s.blockScalar .literal
      else if c = '>' ∧ ¬s.inFlow then s.blockScalar .folded
      else if startsPlain s.inFlow s.rest then s.plainScalar
      else none

/-- Cuts the rest of a text into tokens. Each takes at least one character, which the length check
states. -/
def run (s : YamlScan) : Option (List YamlToken) :=
  match s.advance with
  | none => none
  | some ready =>
    if front ready.rest = endMark then ready.leaveBlocks.map fun done => done.tokens.reverse
    else match ready.next with
      | none => none
      | some after => if after.rest.length < s.rest.length then run after else none
termination_by s.rest.length

end YamlScan

/-- The tokens of a YAML text. -/
def YamlToken.ofText? (text : String) : Option (List YamlToken) := do
  YamlScan.run { rest := ← YamlText.ofText? text }

end SchemaBridge
