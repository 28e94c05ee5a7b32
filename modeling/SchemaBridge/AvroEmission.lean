import SchemaBridge.AvroType
import SchemaBridge.CamelCase
import SchemaBridge.Emission
import SchemaBridge.Settings

/-!
The Avro schema of an object schema. Every object and enumeration becomes a definition with a name
of its own where it is met first, and is mentioned by that name afterwards, so recursion through a
named definition is no obstacle. A tuple becomes an array of the union of its element types, and the
fields of `allOf` branches follow those of the object itself.
-/

namespace SchemaBridge

namespace AvroEmission

/-- The progress of a conversion: the names of the definitions so far with the latest first, every
name that was issued, the nodes in progress, and the warnings in order. -/
structure Progress where
  named : List (NodeId × String) := []
  issued : List String := []
  active : List NodeId := []
  warnings : List String := []

/-- The name for a definition: the base itself if it is free, or else the base with the least number
from two on that makes it free. -/
def freshName (issued : List String) (base : String) : String :=
  if base ∈ issued then
    match (List.range (issued.length + 1)).find? fun k => base ++ toString (k + 2) ∉ issued with
    | some k => base ++ toString (k + 2)
    | none => base
  else base

namespace Progress

def define (p : Progress) (id : NodeId) (base : String) : String × Progress :=
  let name := freshName p.issued base
  (name, { p with named := (id, name) :: p.named, issued := name :: p.issued })

/-- Marks a node as in progress. -/
def enter (p : Progress) (id : NodeId) : Progress :=
  { p with active := id :: p.active }

/-- Marks a node as no longer in progress, however often it was entered. -/
def leave (p : Progress) (id : NodeId) : Progress :=
  { p with active := p.active.filter (· ≠ id) }

def warnDropped (p : Progress) (field record : String) : Progress :=
  { p with warnings := p.warnings ++ ["dropping untyped field `" ++ field ++ "` from record "
      ++ record] }

end Progress

/-- A step of a conversion: it goes on with the progress or fails. -/
abbrev Emitter := StateT Progress (Except EmissionError)

/-- A part that Avro cannot represent. -/
def unsupported {α : Type} (what : Obstacle) : Emitter α :=
  throw (.unsupported .avro what)

/-- The symbols of an enumeration, which have to be texts. -/
def symbols : List Json → Emitter (List String)
  | [] => return []
  | .string symbol :: rest => return symbol :: (← symbols rest)
  | literal :: _ => unsupported (.nonTextSymbol literal)

/-- The members of a union, which have to be types without parts. -/
def unionMembers : List JsonType → Emitter (List AvroType)
  | [] => return []
  | type :: rest =>
    match type.avroName? with
    | some name => return .named name :: (← unionMembers rest)
    | none => unsupported (.typeInUnion type)

/-- The types that a tuple element adds to the union of its array. Unions do not nest, so a union
adds its members. -/
def alternatives : AvroType → List AvroType
  | .union members => members
  | type => [type]

/-- Adds the types that are not in a list yet. -/
def addNew (types : List AvroType) : List AvroType → List AvroType
  | [] => types
  | type :: rest => addNew (if type ∈ types then types else types ++ [type]) rest

/-- The type of the items of a tuple with the given element types. -/
def tupleItems : List AvroType → Emitter AvroType
  | [] => unsupported .emptyTuple
  | [type] => return type
  | types => return .union types

/-- The name of a branch in an error: the reference as it is written, the title, or the number of
the node. -/
def branchLabel (s : Schema) (branch : NodeId) : String :=
  match (s.node branch).kind with
  | .reference reference _ => reference
  | _ => (s.node branch).title.getD ("#" ++ toString branch)

/-- The name that a definition asks for: its title, or else a name made from the property that it
describes. -/
def baseName (defaultName : String) (node : Node) (hint : Option String) : String :=
  match node.title, hint with
  | some title, _ => title
  | none, some property => CamelCase.ofText property
  | none, none => defaultName

/-- Whether a node becomes a definition with a name. -/
def isDefinition : Kind → Bool
  | .object _ | .enumeration _ => true
  | _ => false

/-- How the type of a node is found, given the property that it describes: none for an untyped
node. -/
abbrev TypeEmitter := NodeId → Option String → Emitter (Option AvroType)

/-- The types of the elements of a tuple, merged. The first element has the given index. -/
def emitElements (emit : TypeEmitter) (hint : Option String) :
    Nat → List NodeId → List AvroType → Emitter (List AvroType)
  | _, [], types => return types
  | index, id :: rest, types => do
    match ← emit id hint with
    | some type => emitElements emit hint (index + 1) rest (addNew types (alternatives type))
    | none => throw (.untyped .avro (hint.getD "tuple" ++ "[" ++ toString index ++ "]"))

/-- The fields of properties, in order. An untyped property is left out with a warning. -/
def emitProperties (emit : TypeEmitter) (s : Schema) (record : String) :
    List (String × NodeId) → Emitter (List (AvroField AvroType))
  | [] => return []
  | (name, id) :: rest => do
    match ← emit id (some name) with
    | some type =>
      return ⟨name, type, (s.node id).description⟩ :: (← emitProperties emit s record rest)
    | none =>
      modify (·.warnDropped name record)
      emitProperties emit s record rest

/-- The fields of branches, one after the other. -/
def emitBranches (emit : NodeId → Emitter (List (AvroField AvroType))) :
    List NodeId → Emitter (List (AvroField AvroType))
  | [] => return []
  | id :: rest => return (← emit id) ++ (← emitBranches emit rest)

def checkNames (record : String) (fields : List (AvroField AvroType)) :
    Emitter (List (AvroField AvroType)) :=
  match firstRepeated? [] (fields.map AvroField.name) with
  | some name => unsupported (.repeatedRecordField name record)
  | none => return fields

mutual
/-- The type of a node: its name if it is defined already. The budget bounds the nesting. -/
def emit (s : Schema) (defaultName : String) : Nat → TypeEmitter
  | 0, _, _ => throw .tooDeep
  | budget + 1, id, hint => do
    match (← get).named.lookup id with
    | some name => return some (.named name)
    | none =>
      let node := s.node id
      let name := baseName defaultName node hint
      let name ← if isDefinition node.kind then modifyGet (·.define id name) else pure name
      modify (·.enter id)
      let type ← visit s defaultName budget id hint name
      modify (·.leave id)
      return type

/-- The type that a node describes, under the name it has if it is a definition. -/
def visit (s : Schema) (defaultName : String) :
    Nat → NodeId → Option String → String → Emitter (Option AvroType)
  | 0, _, _, _ => throw .tooDeep
  | budget + 1, id, hint, name => do
    let node := s.node id
    match node.kind with
    | .untyped => return none
    | .primitive type => return some (.named type.avroName)
    | .enumeration literals => return some (.enumeration name (← symbols literals))
    | .array items =>
      match ← emit s defaultName budget items hint with
      | some type => return some (.array type)
      | none => throw (.untyped .avro (hint.getD "array" ++ "[]"))
    | .tuple ids =>
      let types ← emitElements (emit s defaultName budget) hint 0 ids []
      return some (.array (← tupleItems types))
    | .object shape =>
      let own ← emitProperties (emit s defaultName budget) s name shape.properties
      let inherited ← emitBranches (branchFields s defaultName budget) shape.allOf
      return some (.record name node.description (← checkNames name (own ++ inherited)))
    | .reference target resolved =>
      match resolved with
      | none => throw (.unresolved target)
      | some next =>
        let progress ← get
        if next ∈ progress.active ∧ (progress.named.lookup next).isNone then throw (.cycle target)
        emit s defaultName budget next hint
    | .union types => return some (.union (← unionMembers types))

/-- The fields that a branch adds to its object. A branch is no definition and issues no name. -/
def branchFields (s : Schema) (defaultName : String) :
    Nat → NodeId → Emitter (List (AvroField AvroType))
  | 0, _ => throw .tooDeep
  | budget + 1, branch => do
    let target ← s.dereference branch
    if target ∈ (← get).active then throw (.cycle (branchLabel s branch))
    let node := s.node target
    modify (·.enter target)
    let type ← visit s defaultName budget target none (baseName defaultName node none)
    modify (·.leave target)
    match type with
    | some (.record _ _ fields) => return fields
    | none => return []
    | some _ => unsupported (.nonRecordBranch node.kind.name)
end

end AvroEmission

namespace Schema

/-- The Avro schema of an object schema. -/
def avroSchema (s : Schema) (settings : AvroSettings) : Except EmissionError AvroSchema := do
  let (root, _) ← s.rootObject
  let (type, progress) ←
    (AvroEmission.emit s settings.defaultName s.maxEmissionDepth root none).run {}
  match type with
  | some type =>
    return { type, nameSpace := settings.nameSpace, warnings := progress.warnings }
  | none => throw (.rootNotObject Kind.untyped.name)

end Schema

end SchemaBridge
