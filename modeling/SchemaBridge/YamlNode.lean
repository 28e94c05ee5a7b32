import SchemaBridge.YamlToken

/-!
Nodes of a YAML document, and their grammar. An anchor names the node behind it by a number, and an
alias stands for the node with the number that its anchor has at that point. An alias may stand
inside the node that it names, so the nodes with numbers are kept beside the document.
-/

namespace SchemaBridge

/-- A node of a YAML document. -/
inductive YamlNode where
  | scalar (tag : Option String) (style : ScalarStyle) (content : String)
  | sequence (tag : Option String) (items : List YamlNode)
  | mapping (tag : Option String) (entries : List (YamlNode × YamlNode))
  | alias (number : Nat)

/-- A node with the number that its anchor gave it, and how many anchors came before. -/
structure Anchored where
  number : Nat
  order : Nat
  node : YamlNode

/-- A YAML document: its node, which an empty text has none of, and the nodes with numbers. -/
structure YamlDocument where
  root : Option YamlNode
  anchored : List Anchored

namespace YamlDocument

/-- The node with a number. When several anchors gave the number, it is the node of the last one. -/
def target? (d : YamlDocument) (number : Nat) : Option YamlNode :=
  let candidates := d.anchored.filter (·.number == number)
  let last := (candidates.map Anchored.order).foldl max 0
  (candidates.find? (·.order == last)).map Anchored.node

end YamlDocument

/-- The progress of reading a document: the tokens that are left, the number of each anchor, the
handles of tags with what they stand for, and the nodes with numbers. -/
structure YamlParse where
  tokens : List YamlToken
  numbers : List (String × Nat) := []
  anchors : Nat := 0
  handles : List (String × String) := []
  anchored : List Anchored := []

namespace YamlParse

/-- A step of reading a document: it goes on with the progress or fails. -/
abbrev Parser := StateT YamlParse Option

/-- The next token, which is not taken. -/
def peek : Parser (Option YamlToken) :=
  return (← get).tokens.head?

def skip : Parser Unit :=
  modify fun p => { p with tokens := p.tokens.drop 1 }

/-- Whether the next token is one of a list. At the end of the text none is. -/
def nextIn (tokens : List YamlToken) : Parser Bool :=
  return (← peek).any (tokens.contains ·)

/-- Takes the next token if it is the given one. -/
def skipIf (token : YamlToken) : Parser Bool := do
  let found ← nextIn [token]
  if found then skip
  return found

/-- What stands before the content of a node: an anchor and a tag, in either order. -/
structure Properties where
  anchor : Option String := none
  tag : Option (String × String) := none

def anchorName : Parser (Option String) := do
  match ← peek with
  | some (.anchor name) => skip; return some name
  | _ => return none

def tagParts : Parser (Option (String × String)) := do
  match ← peek with
  | some (.tag handle suffix) => skip; return some (handle, suffix)
  | _ => return none

def properties : Parser Properties := do
  match ← anchorName with
  | some name => return { anchor := name, tag := ← tagParts }
  | none =>
    match ← tagParts with
    | some tag => return { anchor := ← anchorName, tag }
    | none => return {}

/-- The whole tag. A handle has to be declared, and a verbatim tag has none. -/
def wholeTag : Option (String × String) → Parser (Option String)
  | none => return none
  | some ("", suffix) => return some suffix
  | some (handle, suffix) => do
    match (← get).handles.lookup handle with
    | some replacement => return some (replacement ++ suffix)
    | none => failure

/-- Gives an anchor its number: how many other anchors there are. -/
def declareAnchor : Option String → Parser (Option (Nat × Nat))
  | none => return none
  | some name => do
    let p ← get
    let number := (p.numbers.map Prod.fst).eraseDups.length
    set { p with numbers := (name, number) :: p.numbers, anchors := p.anchors + 1 }
    return some (number, p.anchors)

def keep (place : Option (Nat × Nat)) (node : YamlNode) : Parser YamlNode := do
  match place with
  | some (number, order) =>
    modify fun p => { p with anchored := ⟨number, order, node⟩ :: p.anchored }
  | none => pure ()
  return node

/-- A scalar of which nothing is written. -/
def emptyNode : YamlNode :=
  .scalar none .plain ""

mutual
/-- Reads a node. Outside brackets it may be a block, and where `indentless` says so, a sequence
whose entries are not indented. The budget bounds the depth of the reading. -/
def node : Nat → Bool → Bool → Parser YamlNode
  | 0, _, _ => failure
  | budget + 1, inBlock, indentless => do
    match ← peek with
    | some (.alias name) =>
      match (← get).numbers.lookup name with
      | some number => skip; return .alias number
      | none => failure
    | _ =>
      let given ← properties
      let tag ← wholeTag given.tag
      let place ← declareAnchor given.anchor
      let token ← peek
      if indentless ∧ token = some .blockEntry then
        keep place (.sequence tag (← indentlessEntries budget))
      else match token with
        | some (.scalar style content) =>
          skip
          let tag := if tag = some "!" then none else tag
          keep place (.scalar tag style content)
        | some .flowSequenceStart =>
          skip; keep place (.sequence tag (← flowItems budget true))
        | some .flowMappingStart =>
          skip; keep place (.mapping tag (← flowEntries budget true))
        | some .blockSequenceStart =>
          if inBlock then skip; keep place (.sequence tag (← blockItems budget)) else failure
        | some .blockMappingStart =>
          if inBlock then skip; keep place (.mapping tag (← blockEntries budget)) else failure
        | _ =>
          if place.isSome ∨ tag.isSome then keep place (.scalar tag .plain "") else failure

/-- Reads a node, or the empty one where one of the given tokens follows. -/
def nodeUnless : Nat → List YamlToken → Bool → Bool → Parser YamlNode
  | 0, _, _, _ => failure
  | budget + 1, ends, inBlock, indentless => do
    if ← nextIn ends then return emptyNode else node budget inBlock indentless

def blockItems : Nat → Parser (List YamlNode)
  | 0 => failure
  | budget + 1 => do
    if ← skipIf .blockEntry then
      let item ← nodeUnless budget [.blockEntry, .blockEnd] true false
      return item :: (← blockItems budget)
    else if ← skipIf .blockEnd then return []
    else failure

/-- Reads the items of a sequence that is not indented. It ends where no further item follows. -/
def indentlessEntries : Nat → Parser (List YamlNode)
  | 0 => failure
  | budget + 1 => do
    if ← skipIf .blockEntry then
      let item ← nodeUnless budget [.blockEntry, .key, .value, .blockEnd] true false
      return item :: (← indentlessEntries budget)
    else return []

def blockEntries : Nat → Parser (List (YamlNode × YamlNode))
  | 0 => failure
  | budget + 1 => do
    if ← skipIf .key then
      let key ← nodeUnless budget [.key, .value, .blockEnd] true true
      let value ← if ← skipIf .value then
          nodeUnless budget [.key, .value, .blockEnd] true true
        else pure emptyNode
      return (key, value) :: (← blockEntries budget)
    else if ← skipIf .blockEnd then return []
    else failure

/-- Reads the items of a sequence in brackets. A key makes an item a mapping of one entry. -/
def flowItems : Nat → Bool → Parser (List YamlNode)
  | 0, _ => failure
  | budget + 1, isFirst => do
    if ← skipIf .flowSequenceEnd then return []
    if !isFirst then
      if !(← skipIf .flowEntry) then failure
    if ← skipIf .flowSequenceEnd then return []
    let item ←
      if ← skipIf .key then
        let key ←
          if ← nextIn [.value, .flowEntry, .flowSequenceEnd] then skip; pure emptyNode
          else node budget false false
        let value ← if ← skipIf .value then
            nodeUnless budget [.flowEntry, .flowSequenceEnd] false false
          else pure emptyNode
        pure (.mapping none [(key, value)])
      else node budget false false
    return item :: (← flowItems budget false)

/-- Reads the entries of a mapping in braces. A node without a colon is a key without a value. -/
def flowEntries : Nat → Bool → Parser (List (YamlNode × YamlNode))
  | 0, _ => failure
  | budget + 1, isFirst => do
    if ← skipIf .flowMappingEnd then return []
    if !isFirst then
      if !(← skipIf .flowEntry) then failure
    if ← skipIf .flowMappingEnd then return []
    let entry ←
      if ← skipIf .key then
        let key ← nodeUnless budget [.value, .flowEntry, .flowMappingEnd] false false
        let value ← if ← skipIf .value then
            nodeUnless budget [.flowEntry, .flowMappingEnd] false false
          else pure emptyNode
        pure (key, value)
      else do
        let key ← node budget false false
        pure (key, emptyNode)
    return entry :: (← flowEntries budget false)
end

/-- The handles that need no declaration. -/
def defaultHandles : List (String × String) :=
  [("!", "!"), ("!!", "tag:yaml.org,2002:")]

/-- Reads directives. A version is given at most once and is 1.1 or 1.2, and a handle is declared at
most once. -/
def directives (versionGiven : Bool) (declared : List (String × String)) :
    List YamlToken → Option (List (String × String) × List YamlToken)
  | .versionDirective major minor :: rest =>
    if versionGiven ∨ major ≠ 1 ∨ (minor ≠ 1 ∧ minor ≠ 2) then none
    else directives true declared rest
  | .tagDirective handle replacement :: rest =>
    if (declared.lookup handle).isSome then none
    else directives versionGiven ((handle, replacement) :: declared) rest
  | rest => some (declared, rest)

/-- Reads the start of a document: directives, and the marker that they need and that may also stand
alone. Says whether the marker is there. -/
def documentStart : Parser Bool := do
  let p ← get
  let (declared, rest) ← directives false [] p.tokens
  let handles := declared ++ defaultHandles
  match rest with
  | .documentStart :: rest =>
    set { p with tokens := rest, handles }
    return true
  | _ =>
    if rest.length < p.tokens.length then failure
    set { p with handles }
    return false

/-- Reads the node of a document. Behind a marker it may be empty. -/
def documentNode (isMarked : Bool) : Parser YamlNode := do
  let budget := 4 * ((← get).tokens.length + 2)
  if isMarked && ((← peek).isNone || (← nextIn [.documentStart, .documentEnd])) then
    return emptyNode
  else node budget true false

/-- Reads the only document of a text. After its node, markers of its end may follow. -/
def document : Parser (Option YamlNode) := do
  if (← peek).isNone then return none
  let root ← documentNode (← documentStart)
  modify fun p => { p with tokens := p.tokens.dropWhile (· == .documentEnd) }
  if (← peek).isSome then failure
  return some root

end YamlParse

/-- The only document that a text spells. -/
def YamlDocument.ofText? (text : String) : Option YamlDocument := do
  let tokens ← YamlToken.ofText? text
  let (root, p) ← YamlParse.document.run { tokens }
  return { root, anchored := p.anchored }

end SchemaBridge
